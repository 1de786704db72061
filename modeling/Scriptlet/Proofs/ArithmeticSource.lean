import Scriptlet.Machine.Run
import Scriptlet.Proofs.ReturnRefinement
import Scriptlet.Proofs.SourceScan

/-! Arithmetic from source text to value. A text with every operand in parentheses is read as the
expression it was written for, and running it gives the exact rational of that expression as long as
there are numbers for all of its parts; it fails just where a divisor is zero. -/

namespace Scriptlet.Proofs.ArithmeticSource
open Grammar GrammarReading ProgramRendering DecimalValue SourceScan NumberInvariant NumberValue EvalFuel
  StructuredReturn

inductive Operation where
  | add | subtract | multiply | divide
  deriving DecidableEq, Repr

inductive Arithmetic where
  | number (literal : WrittenDecimal)
  | negate (operand : Arithmetic)
  | binary (operation : Operation) (left right : Arithmetic)

def Operation.exact : Operation → ℚ → ℚ → Option ℚ
  | add, p, q => some (p + q)
  | subtract, p, q => some (p - q)
  | multiply, p, q => some (p * q)
  | divide, p, q => if q = 0 then none else some (p / q)

namespace Arithmetic

/-- The rational of an expression, unless it divides by zero somewhere. -/
def exact : Arithmetic → Option ℚ
  | number literal => some literal.rational
  | negate operand => operand.exact.map (- ·)
  | binary operation left right => do operation.exact (← left.exact) (← right.exact)

def subtrees : Arithmetic → List Arithmetic
  | number literal => [number literal]
  | negate operand => negate operand :: operand.subtrees
  | binary operation left right => binary operation left right :: (left.subtrees ++ right.subtrees)

def divisors : Arithmetic → List Arithmetic
  | number _ => []
  | negate operand => operand.divisors
  | binary .divide left right => right :: (left.divisors ++ right.divisors)
  | binary _ left right => left.divisors ++ right.divisors

end Arithmetic

def Operation.symbol : Operation → Char
  | add => '+'
  | subtract => '-'
  | multiply => '*'
  | divide => '/'

def parenthesized (inner : List Char) : List Char := '(' :: (inner ++ [')'])

def Arithmetic.chars : Arithmetic → List Char
  | number literal => literal.chars
  | negate operand => '-' :: parenthesized operand.chars
  | binary operation left right =>
    parenthesized left.chars ++ ' ' :: operation.symbol :: ' ' :: parenthesized right.chars

/-- The text of an expression, every operand in parentheses. -/
def Arithmetic.text (t : Arithmetic) : String := String.ofList t.chars

def Operation.operator : Operation → Operator
  | add => .add
  | subtract => .subtract
  | multiply => .multiply
  | divide => .divide

def Arithmetic.expression : Arithmetic → Expression
  | number literal =>
    .clause (.literal (.number ⟨String.ofList (Number.canonicalChars literal.chars), literal.number, literal.parse_canonical⟩))
  | negate operand => .negate operand.expression
  | binary operation left right => .binary operation.operator left.expression right.expression

private theorem scans_parenthesized {inner : List Char} {words : List Word}
    (inside : ∀ {rest}, EndsNumber rest → Scans inner words rest) (rest : List Char) :
    Scans (parenthesized inner) (parens words) rest := by
  have closing : Scans (inner ++ [')']) (words ++ [(.closeParen, ")")]) rest :=
    (inside (Or.inr ⟨rest, rfl⟩)).append (scans_close rest)
  exact (scans_open _).append closing

theorem scans_symbol (operation : Operation) (rest : List Char) :
    Scans [operation.symbol] [operation.operator.word] (' ' :: rest) := by
  cases operation <;> exact scans_one ⟨rfl, by decide⟩ (by decide) rfl

theorem Arithmetic.scans (t : Arithmetic) {rest : List Char} (ends : EndsNumber rest) :
    Scans t.chars t.expression.words rest := by
  induction t generalizing rest with
  | number literal => exact scans_number literal ends
  | negate operand ih =>
    have sign : Scans ['-'] [(.minus, "-")] (parenthesized operand.chars ++ rest) :=
      scans_one ⟨rfl, by decide⟩ (by simp) rfl
    exact sign.append (scans_parenthesized ih rest)
  | binary operation left right first second =>
    have rhs := (scans_space _).append (scans_parenthesized second rest)
    have middle := (scans_space _).append ((scans_symbol operation _).append rhs)
    exact (scans_parenthesized first _).append middle

theorem Operation.exact_eq_none {operation : Operation} {p q : ℚ} :
    operation.exact p q = none ↔ operation = .divide ∧ q = 0 := by
  cases operation <;> simp [exact]

namespace Arithmetic

private theorem mem_divisors_binary {operation : Operation} {left right d : Arithmetic} :
    d ∈ (binary operation left right).divisors ↔
      (operation = .divide ∧ d = right) ∨ d ∈ left.divisors ∨ d ∈ right.divisors := by
  cases operation <;> simp [divisors]

private theorem exact_binary_eq_none {operation : Operation} {left right : Arithmetic} :
    (binary operation left right).exact = none ↔
      left.exact = none ∨ right.exact = none ∨ (left.exact.isSome ∧ operation = .divide ∧ right.exact = some 0) := by
  rw [exact]
  cases left.exact with
  | none => simp
  | some p => cases right.exact <;> simp [Operation.exact_eq_none]

/-- An expression lacks a rational just if it divides by a part that is zero. -/
theorem exact_eq_none (t : Arithmetic) : t.exact = none ↔ ∃ d ∈ t.divisors, d.exact = some 0 := by
  induction t with
  | number literal => simp [exact, divisors]
  | negate operand ih => simpa [exact, divisors] using ih
  | binary operation left right first second =>
    rw [exact_binary_eq_none]
    constructor
    · rintro (none | none | ⟨_, divides, zero⟩)
      · obtain ⟨d, member, zero⟩ := first.mp none
        exact ⟨d, mem_divisors_binary.mpr (Or.inr (Or.inl member)), zero⟩
      · obtain ⟨d, member, zero⟩ := second.mp none
        exact ⟨d, mem_divisors_binary.mpr (Or.inr (Or.inr member)), zero⟩
      · exact ⟨right, mem_divisors_binary.mpr (Or.inl ⟨divides, rfl⟩), zero⟩
    · rintro ⟨d, member, zero⟩
      rcases mem_divisors_binary.mp member with ⟨divides, rfl⟩ | member | member
      · cases given : left.exact with
        | none => exact Or.inl rfl
        | some p => exact Or.inr (Or.inr ⟨rfl, divides, zero⟩)
      · exact Or.inl (first.mpr ⟨d, member, zero⟩)
      · exact Or.inr (Or.inl (second.mpr ⟨d, member, zero⟩))

end Arithmetic

/-- What an expression with the given rational comes to. -/
inductive Gives : Option ℚ → Outcome Value → Prop where
  | number {n q} (normal : Normal n) (same : value n = q) : Gives (some q) (.normal (.number n))
  | zeroDivisor {e} (kind : e.fault.kind = "division by zero") : Gives none (.abrupt (.error e))

/-- No variable hides a built-in function. -/
def NativesVisible (m : Machine) : Prop := ∀ f : Native, m.lookup f.name = some (.native f.name)

def Operation.native : Operation → Native
  | add => .add
  | subtract => .subtract
  | multiply => .multiply
  | divide => .divide

theorem Operation.function_eq (operation : Operation) : operation.operator.function = operation.native.name := by
  cases operation <;> rfl

private theorem ofName_name (f : Native) : Native.ofName? f.name = some f := by
  cases f <;> decide

section Calls
variable {m : Machine} {position : Position} {a b : Number}

private theorem calls_native {f : Native} {args : List Value} {v : Value} (silent : f ≠ .print)
    (computed : f.compute args = .ok v) : Calls m position (.native f.name) args (.normal v) m := by
  have applied : f.apply args m.sink = (.ok v, m.sink) := by rw [Native.apply, if_neg silent, computed]
  exact .native (ofName_name f) applied

private theorem calls_native_fault {f : Native} {args : List Value} {fault : NativeFault} (silent : f ≠ .print)
    (computed : f.compute args = .error fault) :
    Calls m position (.native f.name) args (raise m position (.native fault)) m := by
  have applied : f.apply args m.sink = (.error fault, m.sink) := by rw [Native.apply, if_neg silent, computed]
  exact .nativeFault (ofName_name f) applied

private theorem calls_negation : Calls m position (.native Native.negate.name) [.number a] (.normal (.number (-a))) m :=
  calls_native (by decide) rfl

private theorem compute_divide : Native.divide.compute [.number a, .number b] =
    match a.div? b with
    | some n => .ok (.number n)
    | none => .error (.divisionByZero Native.divide.name) := rfl

theorem Operation.calls_division (fits : value b ≠ 0 → Fits (value a / value b)) :
    ∃ outcome, Calls m position (.native Native.divide.name) [.number a, .number b] outcome m ∧
      Gives (Operation.divide.exact (value a) (value b)) outcome := by
  by_cases zero : value b = 0
  · have undefined : a.div? b = none := if_pos (by simpa [Number.isZero] using value_eq_zero.mp zero)
    have fault : Native.divide.compute [.number a, .number b] = .error (.divisionByZero Native.divide.name) := by
      rw [compute_divide, undefined]
    refine ⟨_, calls_native_fault (by decide) fault, ?_⟩
    rw [Operation.exact, if_pos zero]
    exact .zeroDivisor rfl
  · obtain ⟨n, divided, same⟩ := div_value (fun none => zero (value_eq_zero.mpr none)) (fits zero)
    have quotient : Native.divide.compute [.number a, .number b] = .ok (.number n) := by
      rw [compute_divide, divided]
    refine ⟨_, calls_native (by decide) quotient, ?_⟩
    rw [Operation.exact, if_neg zero]
    exact .number (div_normal divided) same

theorem Operation.calls (operation : Operation) (left : Normal a) (right : Normal b)
    (fits : ∀ q, operation.exact (value a) (value b) = some q → Fits q) :
    ∃ outcome, Calls m position (.native operation.native.name) [.number a, .number b] outcome m ∧
      Gives (operation.exact (value a) (value b)) outcome := by
  cases operation with
  | add =>
    have sum := add_value (Or.inr left) (Or.inr right) (fits _ rfl)
    exact ⟨_, calls_native (by decide) rfl, .number (add_normal a b) sum⟩
  | subtract =>
    have difference := sub_value (Or.inr left) (Or.inr right) (fits _ rfl)
    exact ⟨_, calls_native (by decide) rfl, .number (sub_normal a b) difference⟩
  | multiply => exact ⟨_, calls_native (by decide) rfl, .number (mul_normal a b) (mul_value (fits _ rfl))⟩
  | divide => exact calls_division fun some => fits _ (if_neg some)

end Calls

section Evaluation
variable {m : Machine} {position : Position} {node function : Node}

private theorem evaluates_native (plain : NativesVisible m) (f : Native) (read : node.unplaced = .get {} f.name) :
    Evaluates m node (.normal (.native f.name)) m := by
  obtain ⟨position, rfl⟩ := Node.eq_get_of_unplaced read
  exact .get (plain f)

private theorem evaluates_negation {operand : Node} {p : Option ℚ} {part : Outcome Value}
    (callee : Evaluates m function (.normal (.native Native.negate.name)) m)
    (ran : Evaluates m operand part m) (gives : Gives p part) :
    ∃ outcome, Evaluates m (.call position function [operand]) outcome m ∧ Gives (p.map (- ·)) outcome := by
  cases gives with
  | number normal same =>
    refine ⟨_, .call callee (.cons ran .nil) calls_negation, .number (neg_normal normal) ?_⟩
    rw [neg_value, same]
  | zeroDivisor kind => exact ⟨_, .callArgumentAbrupt callee (.stop ran), .zeroDivisor kind⟩

/-- Operands are evaluated from left to right, and a zero divisor in one of them ends the evaluation. -/
theorem evaluates_operation {operation : Operation} {left right : Node} {p q : Option ℚ} {first second : Outcome Value}
    (callee : Evaluates m function (.normal (.native operation.native.name)) m)
    (ranLeft : Evaluates m left first m) (givesLeft : Gives p first)
    (ranRight : Evaluates m right second m) (givesRight : Gives q second)
    (fits : ∀ r ∈ (do operation.exact (← p) (← q)), Fits r) :
    ∃ outcome, Evaluates m (.call position function [left, right]) outcome m ∧
      Gives (do operation.exact (← p) (← q)) outcome := by
  cases givesLeft with
  | zeroDivisor kind => exact ⟨_, .callArgumentAbrupt callee (.stop ranLeft), .zeroDivisor kind⟩
  | number leftNormal leftSame =>
    cases givesRight with
    | zeroDivisor kind => exact ⟨_, .callArgumentAbrupt callee (.later ranLeft (.stop ranRight)), .zeroDivisor kind⟩
    | number rightNormal rightSame =>
      subst leftSame rightSame
      obtain ⟨outcome, called, gives⟩ := operation.calls leftNormal rightNormal fits
      exact ⟨outcome, .call callee (.cons ranLeft (.cons ranRight .nil)) called, gives⟩

theorem Arithmetic.evaluates (t : Arithmetic) (plain : NativesVisible m) (read : node.unplaced = t.expression.node)
    (fits : ∀ s ∈ t.subtrees, ∀ q ∈ s.exact, Fits q) :
    ∃ outcome, Evaluates m node outcome m ∧ Gives t.exact outcome := by
  -- The node is generalised because the parts of a tree with places are only known up to their places.
  induction t generalizing node with
  | number literal =>
    simp only [expression, Expression.node, Clause.node, Literal.value] at read
    obtain ⟨position, rfl⟩ := Node.eq_const_of_unplaced read
    have small : Fits literal.rational := fits _ (List.mem_singleton_self _) _ rfl
    have normal : Normal literal.number := parse_normal literal.parse_canonical
    exact ⟨.normal (.number literal.number), .const, .number normal (literal.number_value small)⟩
  | negate operand ih =>
    rw [expression, Expression.node] at read
    obtain ⟨position, function, arguments, rfl, named, given⟩ := Node.eq_call_of_unplaced read
    obtain ⟨argument, rfl, part⟩ := List.map_eq_singleton_iff.mp given
    obtain ⟨_, ran, gives⟩ := ih part fun s member => fits s (List.mem_cons_of_mem _ member)
    exact evaluates_negation (evaluates_native plain .negate named) ran gives
  | binary operation left right first second =>
    rw [expression, Expression.node, operation.function_eq] at read
    obtain ⟨position, function, arguments, rfl, named, given⟩ := Node.eq_call_of_unplaced read
    obtain ⟨leftNode, others, rfl, leftPart, given⟩ := List.map_eq_cons_iff.mp given
    obtain ⟨rightNode, rfl, rightPart⟩ := List.map_eq_singleton_iff.mp given
    obtain ⟨_, ranLeft, givesLeft⟩ := first leftPart fun s member =>
      fits s (List.mem_cons_of_mem _ (List.mem_append_left _ member))
    obtain ⟨_, ranRight, givesRight⟩ := second rightPart fun s member =>
      fits s (List.mem_cons_of_mem _ (List.mem_append_right _ member))
    have callee := evaluates_native plain operation.native named
    exact evaluates_operation callee ranLeft givesLeft ranRight givesRight (fits _ List.mem_cons_self)

end Evaluation

theorem Arithmetic.words_head (t : Arithmetic) :
    ∃ kind lexeme more, t.expression.words = (kind, lexeme) :: more ∧ kind ∈ [.number, .minus, .openParen] := by
  cases t with
  | number literal => exact ⟨_, _, _, rfl, by decide⟩
  | negate operand => exact ⟨_, _, _, rfl, by decide⟩
  | binary operation left right => exact ⟨_, _, _, rfl, by decide⟩

theorem Arithmetic.startsValue (t : Arithmetic) {ts : List Token} (written : ts.map Token.word = t.expression.words) :
    StartsValue ts := by
  obtain ⟨kind, lexeme, more, words, starts⟩ := t.words_head
  rw [words] at written
  obtain ⟨first, rest, rfl, rfl, _⟩ := cons_of_words written
  intro front isFront
  cases Option.mem_some_iff.mp isFront
  constructor
  · intro bad
    simp [bad] at starts
  · intro bad
    simp [bad] at starts

/-- The text is read as a program that returns the expression. -/
theorem Arithmetic.ofSource (t : Arithmetic) :
    ∃ place position node, Program.ofSource ("return " ++ t.text) = .ok ⟨[], place, [.ret position node]⟩ ∧
      node.unplaced = t.expression.node := by
  have scans : Scans ("return " ++ t.text).toList ((.returnWord, "return") :: t.expression.words) [] := by
    have chars : ("return " ++ t.text).toList = ['r', 'e', 't', 'u', 'r', 'n'] ++ ([' '] ++ t.chars) := by
      simp [Arithmetic.text]
    rw [chars]
    exact (scans_return _).append ((scans_space _).append (t.scans (Or.inl rfl)))
  obtain ⟨ts, read, written⟩ := scans.tokenize
  obtain ⟨word, rest, rfl, kind, _, value⟩ := cons_of_words written
  have inside := t.expression.read value
  have alone := reads_return kind inside (t.startsValue value)
  have all := alone.readsAll readsAll_nil
  rw [List.append_nil] at all
  have empty : hoist [] = .ok ([], []) := by rw [hoist]
  have hoisted := hoist_bare all.balanced.bare empty
  rw [List.append_nil] at hoisted
  obtain ⟨place, found, parsed, same⟩ := parseProgram_hoisted hoisted all (List.cons_ne_nil _ _)
  rw [Node.unplacedAll_eq_map] at same
  obtain ⟨statement, rfl, isReturn⟩ := List.map_eq_singleton_iff.mp same
  obtain ⟨position, node, rfl, isValue⟩ := Node.eq_ret_of_unplaced isReturn
  refine ⟨place, position, node, ?_, isValue⟩
  rw [Program.ofSource, readSource, read]
  simp only [parsed]
  rfl

section Run
variable {m : Machine} {file text : String}

/-- The machine in which the main part of a program without functions starts. -/
def start (m : Machine) (file text : String) : Machine :=
  { m.setSource file text with globals := {}, frames := [], returned := none, calls := [] }

private theorem nativesVisible_start : NativesVisible (enterBlock (start m file text)) := by
  intro f
  simp [Machine.lookup, start, enterBlock, Machine.setSource, Frame.get?, ofName_name]

def answer : Abrupt → Except Failure Value
  | .ret value => .ok value
  | .error e => .error (.runtime e)

private theorem runSource_of_breaks {place : Position} {statements : List Node} {reason : Abrupt} {reached : Machine}
    (read : Program.ofSource text = .ok ⟨[], place, statements⟩)
    (breaks : Evaluates (start m file text) (.block place statements) (.abrupt reason) reached) :
    ∃ enough after, ∀ fuel, enough ≤ fuel → m.runSource fuel file text = some (answer reason, after) := by
  obtain ⟨enough, result, ran, shows⟩ := breaks.ends rfl
  refine ⟨enough, result.2, fun fuel le => ?_⟩
  have again : eval fuel (.block place statements) (start m file text) = some result := eval_grows _ le _ _ ran
  have run : m.runSource fuel file text = (eval fuel (.block place statements) (start m file text)).map
      fun ended => ((ended.1.map fun _ => ended.2.outcome .empty).mapError .runtime, ended.2) := by
    simp only [Machine.runSource, read]
    change (((eval fuel (.block place statements) (start m file text)).bind _).bind _) = _
    cases eval fuel (.block place statements) (start m file text) <;> rfl
  rw [run, again]
  cases shows with
  | abrupt breaks =>
    cases breaks with
    | ret idle any => rfl
    | error idle => rfl

end Run

/-- Source text is computed exactly. As long as every part of an expression that has a rational has one
that fits, the run ends with the number for the rational of the whole, unless a divisor is zero. -/
theorem run_arithmetic_source (t : Arithmetic) (file : String) (m : Machine)
    (fits : ∀ s ∈ t.subtrees, ∀ q ∈ s.exact, Fits q) :
    ∃ enough outcome after,
      (∀ fuel, enough ≤ fuel → m.runSource fuel file ("return " ++ t.text) = some (outcome, after)) ∧
      ((∀ d ∈ t.divisors, d.exact ≠ some 0) →
        ∃ q n, t.exact = some q ∧ outcome = .ok (.number n) ∧ Normal n ∧ value n = q) ∧
      ((∃ e, outcome = .error (.runtime e) ∧ e.fault.kind = "division by zero") ↔
        ∃ d ∈ t.divisors, d.exact = some 0) := by
  obtain ⟨place, position, node, read, isValue⟩ := t.ofSource
  have plain : NativesVisible (enterBlock (start m file ("return " ++ t.text))) := nativesVisible_start
  obtain ⟨result, ran, gives⟩ := t.evaluates plain isValue fits
  rw [← t.exact_eq_none]
  generalize given : t.exact = exact at gives
  cases gives with
  | number normal same =>
    obtain ⟨enough, after, runs⟩ := runSource_of_breaks read (.block (.stop (.ret ran)))
    refine ⟨enough, _, after, runs, fun _ => ⟨_, _, rfl, rfl, normal, same⟩, ?_⟩
    simp [answer]
  | zeroDivisor kind =>
    obtain ⟨enough, after, runs⟩ := runSource_of_breaks read (.block (.stop (.retAbrupt ran)))
    refine ⟨enough, _, after, runs, fun nonzero => ?_, ?_⟩
    · obtain ⟨d, member, zero⟩ := t.exact_eq_none.mp given
      exact absurd zero (nonzero d member)
    · simp [answer, kind]

/-- `(0.1) / ((3) - (subtracted))` -/
def sampleQuotient (subtracted : WrittenDecimal) : Arithmetic :=
  .binary .divide (.number ⟨'0', [], some ['1'], rfl, by simp [IsSide], by simp [IsSide]; decide⟩)
    (.binary .subtract (.number ⟨'3', [], none, rfl, by simp [IsSide], by simp⟩) (.number subtracted))

def twoAndHalf : WrittenDecimal := ⟨'2', [], some ['5', '_', '0'], rfl, by simp [IsSide], by simp [IsSide]; decide⟩

def three : WrittenDecimal := ⟨'3', [], some [], rfl, by simp [IsSide], by simp [IsSide]⟩

theorem sampleQuotient_runs :
    (∃ enough n after, value n = 1 / 5 ∧ ∀ fuel, enough ≤ fuel →
      (Machine.new 0 {} "").runSource fuel "sample" "return (0.1) / ((3) - (2.5_0))" =
        some (.ok (.number n), after)) ∧
    (∃ enough e after, e.fault.kind = "division by zero" ∧ ∀ fuel, enough ≤ fuel →
      (Machine.new 0 {} "").runSource fuel "sample" "return (0.1) / ((3) - (3.))" =
        some (.error (.runtime e), after)) := by
  constructor
  · have exact : (sampleQuotient twoAndHalf).exact = some (1 / 5) := by decide +kernel
    obtain ⟨enough, outcome, after, runs, given, _⟩ :=
      run_arithmetic_source (sampleQuotient twoAndHalf) "sample" (.new 0 {} "") (by decide +kernel)
    obtain ⟨q, n, isExact, rfl, _, same⟩ := given (by decide +kernel)
    cases exact.symm.trans isExact
    exact ⟨enough, n, after, same, runs⟩
  · obtain ⟨enough, outcome, after, runs, _, fails⟩ :=
      run_arithmetic_source (sampleQuotient three) "sample" (.new 0 {} "") (by decide +kernel)
    obtain ⟨e, rfl, kind⟩ := fails.mpr (by decide +kernel)
    exact ⟨enough, e, after, kind, runs⟩

end Scriptlet.Proofs.ArithmeticSource
