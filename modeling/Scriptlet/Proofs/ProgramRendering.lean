import Scriptlet.Proofs.GrammarReading

/-! Programs as they are written, and that reading a written program gives back the program. Parts of
expressions stand in parentheses and the parts of conditionals in braces, so that the tokens alone say
where each part begins and ends. Places do not matter: any tokens that say the same words are read as
the same program. -/

namespace Scriptlet

/-- What a token says, wherever it stands. -/
def Token.word (t : Token) : TokenKind × String := (t.kind, t.lexeme)

def Definition.unplaced (d : Definition) : Definition := { d with body := d.body.unplaced }

def Program.unplaced (p : Program) : Program :=
  ⟨p.functions.map Definition.unplaced, {}, Node.unplacedAll p.statements⟩

end Scriptlet

namespace Scriptlet.Proofs.ProgramRendering
open Grammar GrammarNesting GrammarSegments GrammarShapes GrammarReading

inductive Operator where
  | equal | notEqual | greater | greaterEqual | less | lessEqual
  | add | subtract | multiply | divide | or | and
  deriving DecidableEq, Repr

structure Numeral where
  lexeme : String
  value : Number
  reads : Number.parse? lexeme = some value

inductive Literal where
  | number (numeral : Numeral)
  | string (content : String)
  | bool (b : Bool)

mutual

/-- What is both a statement and an expression. -/
inductive Clause where
  | variable (name : String)
  | literal (value : Literal)
  | assign (name : String) (value : Expression)
  | block (body : Block)
  | branch (condition : Expression) (action : Block)
  | choice (condition : Expression) (action otherwise : Block)
  | loop (condition : Expression) (action : Block)

inductive Expression where
  | clause (clause : Clause)
  | binary (operator : Operator) (left right : Expression)
  | negate (operand : Expression)
  | not (operand : Expression)
  | call (callee : Expression) (arguments : Arguments)
  | member (base : Expression) (name : String)

inductive Arguments where
  | nil
  | cons (first : Expression) (others : Arguments)

inductive Statement where
  | clause (clause : Clause)
  | ret (value : Expression)
  | apply (function : String) (arguments : Arguments)

/-- Statements up to the last one. A bare `return` is such an end, so it is no statement. -/
inductive Block where
  | done
  | stop
  | next (first : Statement) (others : Block)

end

structure Function where
  name : String
  params : List String
  body : Block

structure Script where
  functions : List Function
  main : Block
  distinct : (functions.map Function.name).Nodup
  runs : main ≠ .done

/-- How an operator is written, and the function behind it. -/
def Operator.entry : Operator → TokenKind × String × String
  | equal => (.equal, "==", "__equal")
  | notEqual => (.notEqual, "!=", "__not_equal")
  | greater => (.greater, ">", "__greater_than")
  | greaterEqual => (.greaterEqual, ">=", "__greater_than_or_equal")
  | less => (.less, "<", "__less_than")
  | lessEqual => (.lessEqual, "<=", "__less_than_or_equal")
  | add => (.plus, "+", "__add")
  | subtract => (.minus, "-", "__subtract")
  | multiply => (.star, "*", "__multiply")
  | divide => (.slash, "/", "__divide")
  | or => (.orWord, "or", "__or")
  | and => (.andWord, "and", "__and")

def Operator.function (operator : Operator) : String := operator.entry.2.2

def Literal.value : Literal → Value
  | number numeral => .number numeral.value
  | string content => .string content
  | bool b => .bool b

mutual

def Clause.node : Clause → Node
  | .variable name => .get {} name
  | .literal value => .const {} value.value
  | .assign name value => .set {} name value.node
  | .block body => .block {} body.nodes
  | .branch condition action => .branch {} condition.node (.block {} action.nodes) .absent
  | .choice condition action otherwise =>
    .branch {} condition.node (.block {} action.nodes) (.block {} otherwise.nodes)
  | .loop condition action => .loop {} condition.node (.block {} action.nodes)

def Expression.node : Expression → Node
  | .clause clause => clause.node
  | .binary operator left right => .call {} (.get {} operator.function) [left.node, right.node]
  | .negate operand => .call {} (.get {} "__negate") [operand.node]
  | .not operand => .call {} (.get {} "__not") [operand.node]
  | .call callee arguments => .call {} callee.node arguments.nodes
  | .member base name => .member {} base.node name

def Arguments.nodes : Arguments → List Node
  | .nil => []
  | .cons first others => first.node :: others.nodes

def Statement.node : Statement → Node
  | .clause clause => clause.node
  | .ret value => .ret {} value.node
  | .apply function arguments => .call {} (.get {} function) arguments.nodes

def Block.nodes : Block → List Node
  | .done => []
  | .stop => [.ret {} (.const {} .empty)]
  | .next first others => first.node :: others.nodes

end

def Function.definition (f : Function) : Definition := ⟨f.name, f.params, .block {} f.body.nodes⟩

def Script.program (s : Script) : Program := ⟨s.functions.map Function.definition, {}, s.main.nodes⟩

abbrev Word := TokenKind × String

def parens (inner : List Word) : List Word := (.openParen, "(") :: (inner ++ [(.closeParen, ")")])

def braces (inner : List Word) : List Word := (.openBrace, "\x7b") :: (inner ++ [(.closeBrace, "\x7d")])

/-- The rest of a list behind its first item. -/
def commaBefore : List Word → List Word
  | [] => []
  | others => (.comma, ",") :: others

def Operator.word (operator : Operator) : Word := (operator.entry.1, operator.entry.2.1)

def Literal.word : Literal → Word
  | number numeral => (.number, numeral.lexeme)
  | string content => (.string, content)
  | bool true => (.trueWord, "true")
  | bool false => (.falseWord, "false")

mutual

def Clause.words : Clause → List Word
  | .variable name => [(.ident, name)]
  | .literal value => [value.word]
  | .assign name value => (.ident, name) :: (.assign, "=") :: parens value.words
  | .block body => braces body.words
  | .branch condition action => (.ifWord, "if") :: (parens condition.words ++ braces action.words)
  | .choice condition action otherwise =>
    (.ifWord, "if") :: (parens condition.words ++ (braces action.words ++
      (.elseWord, "else") :: braces otherwise.words))
  | .loop condition action => (.whileWord, "while") :: (parens condition.words ++ braces action.words)

def Expression.words : Expression → List Word
  | .clause clause => clause.words
  | .binary operator left right => parens left.words ++ operator.word :: parens right.words
  | .negate operand => (.minus, "-") :: parens operand.words
  | .not operand => (.notWord, "not") :: parens operand.words
  | .call callee arguments => parens callee.words ++ parens arguments.words
  | .member base name => parens base.words ++ [(.dot, "."), (.ident, name)]

def Arguments.words : Arguments → List Word
  | .nil => []
  | .cons first others => parens first.words ++ commaBefore others.words

def Statement.words : Statement → List Word
  | .clause clause => clause.words
  | .ret value => (.returnWord, "return") :: parens value.words
  | .apply function arguments => (.ident, function) :: parens arguments.words

def Block.words : Block → List Word
  | .done => []
  | .stop => [(.returnWord, "return")]
  | .next first others => first.words ++ others.words

end

def parameterWords : List String → List Word
  | [] => []
  | name :: names => (.ident, name) :: commaBefore (parameterWords names)

def Function.words (f : Function) : List Word :=
  (.funcWord, "func") :: (.ident, f.name) :: (parens (parameterWords f.params) ++ braces f.body.words)

def Script.words (s : Script) : List Word := s.functions.flatMap Function.words ++ s.main.words

section Tokens
variable {ts : List Token} {node : Node} {nodes : List Node} {words : List Word}

theorem cons_of_words {kind : TokenKind} {lexeme : String} (written : ts.map Token.word = (kind, lexeme) :: words) :
    ∃ t rest, ts = t :: rest ∧ t.kind = kind ∧ t.lexeme = lexeme ∧ rest.map Token.word = words := by
  obtain ⟨t, rest, rfl, said, after⟩ := List.map_eq_cons_iff.mp written
  cases said
  exact ⟨t, rest, rfl, rfl, rfl, after⟩

private theorem single_of_words {kind : TokenKind} {lexeme : String} (written : ts.map Token.word = [(kind, lexeme)]) :
    ∃ t, ts = [t] ∧ t.kind = kind ∧ t.lexeme = lexeme := by
  obtain ⟨t, rest, rfl, kind, lexeme, after⟩ := cons_of_words written
  cases List.map_eq_nil_iff.mp after
  exact ⟨t, rfl, kind, lexeme⟩

private theorem enclosed_of_words {opening closing : TokenKind} {left right : String}
    (written : ts.map Token.word = (opening, left) :: (words ++ [(closing, right)])) :
    ∃ first inner last, ts = first :: (inner ++ [last]) ∧ first.kind = opening ∧ last.kind = closing ∧
      inner.map Token.word = words := by
  obtain ⟨first, rest, rfl, opens, _, after⟩ := cons_of_words written
  obtain ⟨inner, ending, rfl, inside, final⟩ := List.map_eq_append_iff.mp after
  obtain ⟨last, rfl, closes, _⟩ := single_of_words final
  exact ⟨first, inner, last, rfl, opens, closes, inside⟩

private theorem wraps_of_words (read : ∀ {inner : List Token}, inner.map Token.word = words → ReadsInside inner node)
    (written : ts.map Token.word = parens words) : Wraps ts node := by
  obtain ⟨first, inner, last, rfl, opens, closes, inside⟩ := enclosed_of_words written
  exact .intro opens closes (read inside)

private theorem applies_of_words (read : ∀ {inner : List Token}, inner.map Token.word = words → ReadsList inner nodes)
    (written : ts.map Token.word = parens words) : Applies ts nodes := by
  obtain ⟨first, inner, last, rfl, opens, closes, inside⟩ := enclosed_of_words written
  exact .intro opens closes (read inside)

private theorem braces_of_words (read : ∀ {inner : List Token}, inner.map Token.word = words → ReadsAll inner nodes)
    (written : ts.map Token.word = braces words) : Braces ts nodes := by
  obtain ⟨first, inner, last, rfl, opens, closes, inside⟩ := enclosed_of_words written
  exact .intro opens closes (read inside)

end Tokens

theorem Operator.function_eq (operator : Operator) : operator.function = operatorFunction operator.entry.1 := by
  cases operator <;> rfl

theorem Operator.binary (operator : Operator) : operator.entry.1 ∈ binaryKinds := by
  cases operator <;> decide

theorem Literal.read (literal : Literal) {ts : List Token} (written : ts.map Token.word = [literal.word]) :
    ReadsAnywhere ts (.const {} literal.value) := by
  obtain ⟨t, rfl, kind, lexeme⟩ := single_of_words written
  have taken : t.kind ∈ leafKinds ∧ leafRule t [] = .ok (some (.leaf (.const t.position literal.value))) := by
    rcases literal with numeral | content | (_ | _) <;> simp only at kind lexeme
    · simp [kind, lexeme, leafKinds, leafRule, numeral.reads, Literal.value]
    all_goals simp [kind, lexeme, leafKinds, leafRule, Literal.value]
  have read := reads_leaf taken.1 taken.2
  rwa [Node.unplaced] at read

theorem variable_read {ts : List Token} {name : String} (written : ts.map Token.word = [(.ident, name)]) :
    ReadsAnywhere ts (.get {} name) := by
  obtain ⟨t, rfl, kind, rfl⟩ := single_of_words written
  have taken : leafRule t [] = .ok (some (.leaf (.get t.position t.lexeme))) := by
    simp [leafRule, kind]
  have read := reads_leaf (by simp [kind, leafKinds]) taken
  rwa [Node.unplaced] at read

-- The induction is on the syntax; what each construct reads as follows from what its parts read as.
mutual

theorem Clause.read (clause : Clause) {ts : List Token} (written : ts.map Token.word = clause.words) :
    ReadsAnywhere ts clause.node := by
  cases clause with
  | «variable» name => exact variable_read written
  | literal value => exact value.read written
  | assign name value =>
    obtain ⟨t, _, rfl, named, rfl, tail⟩ := cons_of_words written
    obtain ⟨operator, _, rfl, assigns, _, operand⟩ := cons_of_words tail
    exact reads_assign named assigns (wraps_of_words (Expression.read value) operand)
  | block body => exact reads_block (braces_of_words (Block.read body) written)
  | branch condition action =>
    obtain ⟨t, _, rfl, kind, _, tail⟩ := cons_of_words written
    obtain ⟨_, _, rfl, test, body⟩ := List.map_eq_append_iff.mp tail
    exact reads_branch kind (wraps_of_words (Expression.read condition) test)
      (braces_of_words (Block.read action) body)
  | choice condition action otherwise =>
    obtain ⟨t, _, rfl, kind, _, tail⟩ := cons_of_words written
    obtain ⟨_, _, rfl, test, tail⟩ := List.map_eq_append_iff.mp tail
    obtain ⟨_, _, rfl, body, tail⟩ := List.map_eq_append_iff.mp tail
    obtain ⟨_, _, rfl, other, _, last⟩ := cons_of_words tail
    exact reads_choice kind (wraps_of_words (Expression.read condition) test)
      (braces_of_words (Block.read action) body) other (braces_of_words (Block.read otherwise) last)
  | loop condition action =>
    obtain ⟨t, _, rfl, kind, _, tail⟩ := cons_of_words written
    obtain ⟨_, _, rfl, test, body⟩ := List.map_eq_append_iff.mp tail
    exact reads_loop kind (wraps_of_words (Expression.read condition) test)
      (braces_of_words (Block.read action) body)

theorem Expression.read (expression : Expression) {ts : List Token}
    (written : ts.map Token.word = expression.words) : ReadsInside ts expression.node := by
  cases expression with
  | clause clause => exact (Clause.read clause written).toReadsInside
  | binary operator left right =>
    obtain ⟨_, _, rfl, lhs, tail⟩ := List.map_eq_append_iff.mp written
    obtain ⟨t, _, rfl, kind, _, rhs⟩ := cons_of_words tail
    have read := reads_binary (wraps_of_words (Expression.read left) lhs)
      (wraps_of_words (Expression.read right) rhs) (kind ▸ operator.binary)
    rwa [kind, ← operator.function_eq] at read
  | negate operand =>
    obtain ⟨t, _, rfl, sign, _, tail⟩ := cons_of_words written
    exact reads_negation sign (wraps_of_words (Expression.read operand) tail)
  | not operand =>
    obtain ⟨t, _, rfl, notWord, _, tail⟩ := cons_of_words written
    exact reads_not notWord (wraps_of_words (Expression.read operand) tail)
  | call callee arguments =>
    obtain ⟨_, _, rfl, function, tail⟩ := List.map_eq_append_iff.mp written
    exact reads_call (wraps_of_words (Expression.read callee) function)
      (applies_of_words (Arguments.read arguments) tail)
  | member base name =>
    obtain ⟨_, _, rfl, left, tail⟩ := List.map_eq_append_iff.mp written
    obtain ⟨dot, _, rfl, dotted, _, tail⟩ := cons_of_words tail
    obtain ⟨t, rfl, named, rfl⟩ := single_of_words tail
    exact reads_member (wraps_of_words (Expression.read base) left) dotted named

theorem Arguments.read (arguments : Arguments) {ts : List Token}
    (written : ts.map Token.word = arguments.words) : ReadsList ts arguments.nodes := by
  cases arguments with
  | nil =>
    cases List.map_eq_nil_iff.mp written
    exact readsList_nil
  | cons first others =>
    obtain ⟨_, rest, rfl, argument, tail⟩ := List.map_eq_append_iff.mp written
    have wraps := wraps_of_words (Expression.read first) argument
    cases others with
    | nil =>
      cases List.map_eq_nil_iff.mp tail
      rw [List.append_nil]
      exact wraps.readsList
    | cons second third =>
      obtain ⟨comma, rest, rfl, separates, _, tail⟩ := cons_of_words tail
      have some : rest ≠ [] := by
        rintro rfl
        cases tail
      exact wraps.readsList_cons separates (Arguments.read (.cons second third) tail) some

theorem Statement.read (statement : Statement) {ts : List Token}
    (written : ts.map Token.word = statement.words) : ReadsAlone ts statement.node := by
  cases statement with
  | clause clause => exact (Clause.read clause written).toReadsAlone
  | ret value =>
    obtain ⟨t, _, rfl, returnWord, _, tail⟩ := cons_of_words written
    have wraps := wraps_of_words (Expression.read value) tail
    exact reads_return returnWord wraps.readsInside wraps.startsValue
  | apply function arguments =>
    obtain ⟨t, _, rfl, named, rfl, tail⟩ := cons_of_words written
    exact (reads_apply named (applies_of_words (Arguments.read arguments) tail)).toReadsAlone

theorem Block.read (block : Block) {ts : List Token} (written : ts.map Token.word = block.words) :
    ReadsAll ts block.nodes := by
  cases block with
  | done =>
    cases List.map_eq_nil_iff.mp written
    exact readsAll_nil
  | stop =>
    obtain ⟨t, rfl, returnWord, _⟩ := single_of_words written
    exact readsAll_stop returnWord
  | next first others =>
    obtain ⟨_, _, rfl, head, tail⟩ := List.map_eq_append_iff.mp written
    exact (Statement.read first head).readsAll (Block.read others tail)

end

section Declarations
variable {ts rest : List Token} {t : Token}

/-- Tokens that hold no declaration stay where they are. -/
theorem hoist_bare {functions : List Definition} {left : List Token} (bare : ∀ t ∈ ts, t.kind ≠ .funcWord)
    (after : hoist rest = .ok (functions, left)) : hoist (ts ++ rest) = .ok (functions, ts ++ left) := by
  induction ts with
  | nil => exact after
  | cons t ts ih =>
    obtain ⟨first, others⟩ := List.forall_mem_cons.mp bare
    rw [List.cons_append, hoist, ih others]
    simp only [bind, Except.bind, if_neg first]
    rfl

/-- A declaration is taken out together with what it takes of the tokens behind it. -/
theorem hoist_declaration {functions : List Definition} {definition : Definition} {left after : List Token}
    (kind : t.kind = .funcWord) (hoisted : hoist rest = .ok (functions, left))
    (declared : declaration t left = .ok (definition, after)) :
    hoist (t :: rest) = .ok (addDefinition definition functions, after) := by
  rw [hoist, hoisted]
  simp only [bind, Except.bind, if_pos kind, declared]
  rfl

private theorem parameters_read (name : String) (others : List String) (function : String) {last : Token}
    (closes : last.kind = .closeParen) (written : ts.map Token.word = parameterWords (name :: others)) :
    parameters t function (ts ++ last :: rest) = .ok (name :: others, rest) := by
  induction others generalizing name ts with
  | nil =>
    obtain ⟨param, rfl, kind, rfl⟩ := single_of_words written
    simp [parameters, kind, closes]
  | cons second others ih =>
    obtain ⟨param, _, rfl, kind, rfl, tail⟩ := cons_of_words written
    obtain ⟨comma, _, rfl, separates, _, tail⟩ := cons_of_words tail
    rw [List.cons_append, List.cons_append, parameters, if_neg (by simp [kind]), separates, ih second tail]
    rfl

private theorem parameterList_read (params : List String) (function : String) {last : Token}
    (closes : last.kind = .closeParen) (written : ts.map Token.word = parameterWords params) :
    parameterList t function (ts ++ last :: rest) = .ok (params, rest) := by
  cases params with
  | nil =>
    cases List.map_eq_nil_iff.mp written
    simp [parameterList, closes]
  | cons name others =>
    obtain ⟨param, _, rfl, kind, _, _⟩ := cons_of_words written
    rw [List.cons_append, parameterList, if_neg (by simp [kind]), ← List.cons_append]
    exact parameters_read name others function closes written

private theorem parameterList_balanced (params : List String) (written : ts.map Token.word = parameterWords params) :
    Balanced ts := by
  induction params generalizing ts with
  | nil =>
    cases List.map_eq_nil_iff.mp written
    exact balanced_nil
  | cons name others ih =>
    obtain ⟨param, _, rfl, kind, _, tail⟩ := cons_of_words written
    cases others with
    | nil =>
      cases List.map_eq_nil_iff.mp tail
      exact balanced_nil.cons kind (by decide)
    | cons second others =>
      obtain ⟨comma, _, rfl, separates, _, tail⟩ := cons_of_words tail
      exact ((ih tail).cons separates (by decide)).cons kind (by decide)

/-- A declaration is read up to its last brace. -/
theorem Function.read (f : Function) (stops : BlockStops rest) (written : ts.map Token.word = f.words) :
    ∃ word tail, ts = word :: tail ∧ word.kind = .funcWord ∧ Balanced tail ∧
      ∃ found, declaration word (tail ++ rest) = .ok (found, rest) ∧ found.unplaced = f.definition := by
  obtain ⟨word, _, rfl, kind, _, tail⟩ := cons_of_words written
  obtain ⟨name, _, rfl, named, isName, tail⟩ := cons_of_words tail
  obtain ⟨_, body, rfl, list, block⟩ := List.map_eq_append_iff.mp tail
  obtain ⟨first, params, last, rfl, opens, closes, inside⟩ := enclosed_of_words list
  have braces := braces_of_words (Block.read f.body) block
  have balanced := (parameterList_balanced f.params inside).wrap (Or.inl ⟨opens, closes⟩)
  refine ⟨word, _, rfl, kind, (balanced.append braces.balanced).cons named (by decide), ?_⟩
  obtain ⟨found, parsed, isBody⟩ := braces.parsed
  refine ⟨⟨name.lexeme, f.params, found⟩, ?_, ?_⟩
  · simp only [List.cons_append, List.append_assoc, List.nil_append, declaration, named, opens, ne_eq, not_true,
      ↓reduceIte, parameterList_read f.params name.lexeme closes inside, bind, Except.bind,
      List.isEmpty_iff, List.append_eq_nil_iff, braces.ne_nil, false_and, braces.segment stops,
      List.take_left, parsed, List.drop_left, pure, Except.pure]
  · simp only [Definition.unplaced, isBody, isName, Function.definition]

/-- Declarations of distinct names are all kept, in their order. -/
theorem hoist_functions (functions : List Function) (distinct : (functions.map Function.name).Nodup)
    (bare : ∀ t ∈ rest, t.kind ≠ .funcWord) (stops : BlockStops rest)
    (written : ts.map Token.word = functions.flatMap Function.words) :
    ∃ found, hoist (ts ++ rest) = .ok (found, rest) ∧
      found.map Definition.unplaced = functions.map Function.definition := by
  induction functions generalizing ts with
  | nil =>
    cases List.map_eq_nil_iff.mp written
    have empty : hoist [] = .ok ([], []) := by rw [hoist]
    have whole := hoist_bare bare empty
    rw [List.append_nil] at whole
    exact ⟨[], whole, rfl⟩
  | cons f functions ih =>
    obtain ⟨fresh, distinct⟩ := List.nodup_cons.mp distinct
    obtain ⟨head, others, rfl, first, later⟩ := List.map_eq_append_iff.mp written
    obtain ⟨found, hoisted, same⟩ := ih distinct later
    obtain ⟨word, tail, rfl, kind, balanced, definition, declared, isDefinition⟩ := f.read stops first
    have names : found.map Definition.name = functions.map Function.name := by
      have both := congrArg (List.map Definition.name) same
      simpa [Function.comp_def, Definition.unplaced, Function.definition] using both
    have name : definition.name = f.name := congrArg Definition.name isDefinition
    refine ⟨definition :: found, ?_, by simp [isDefinition, same]⟩
    rw [List.append_assoc, List.cons_append, hoist_declaration kind (hoist_bare balanced.bare hoisted) declared,
      addDefinition, if_neg]
    simp only [List.any_eq_true, beq_iff_eq, not_exists, not_and]
    intro other member sameName
    apply fresh
    rw [← names, ← name, ← sameName]
    exact List.mem_map_of_mem member

end Declarations

theorem Block.words_ne_nil {block : Block} (some : block ≠ .done) : block.words ≠ [] := by
  cases block with
  | done => contradiction
  | stop => simp [Block.words]
  | next first others =>
    intro none
    rw [Block.words, List.append_eq_nil_iff] at none
    have silent : ([] : List Token).map Token.word = first.words := none.1.symm
    obtain ⟨t, front, _⟩ := (first.read silent).starts
    cases front

/-- What the declarations leave is read as the statements of the program. -/
theorem parseProgram_hoisted {ts main : List Token} {functions : List Definition} {nodes : List Node}
    (hoisted : hoist ts = .ok (functions, main)) (read : ReadsAll main nodes) (some : main ≠ []) :
    ∃ position found, parseProgram ts = .ok ⟨functions, position, found⟩ ∧ Node.unplacedAll found = nodes := by
  obtain ⟨found, parsed, same⟩ := read.parsed
  obtain ⟨first, rest, rfl⟩ := List.exists_cons_of_ne_nil some
  refine ⟨first.position, found, ?_, same⟩
  simp only [parseProgram, hoisted, bind, Except.bind, parseStatements, parsed]
  rfl

/-- Reading what was written gives back the program: its functions and its statements. -/
theorem parse_written_program (s : Script) (ts : List Token) (written : ts.map Token.word = s.words) :
    ∃ program, parseProgram ts = .ok program ∧ program.unplaced = s.program := by
  obtain ⟨head, main, rfl, functions, statements⟩ := List.map_eq_append_iff.mp written
  have read := s.main.read statements
  obtain ⟨found, hoisted, same⟩ := hoist_functions s.functions s.distinct read.balanced.bare read.stops.block functions
  have some : main ≠ [] := by
    rintro rfl
    exact Block.words_ne_nil s.runs statements.symm
  obtain ⟨position, nodes, parsed, isMain⟩ := parseProgram_hoisted hoisted read some
  exact ⟨_, parsed, by simp only [Program.unplaced, same, isMain, Script.program]⟩

/-- `func f(a, b)` with an `else`, a loop and a bare `return`, and a main program that assigns the value
of an `if`, calls with nested brackets and ends in a number. -/
def sampleScript : Script where
  functions := [⟨"f", ["a", "b"],
    .next (.clause (.choice (.binary .less (.clause (.variable "a")) (.clause (.variable "b")))
      (.next (.ret (.clause (.variable "a"))) .done)
      (.next (.clause (.loop (.not (.clause (.literal (.bool true)))) .done)) .done))) .stop⟩]
  main :=
    .next (.clause (.assign "x" (.clause (.branch (.clause (.literal (.bool true))) .stop))))
      (.next (.apply "f" (.cons (.negate (.member (.clause (.variable "x")) "y"))
        (.cons (.call (.clause (.variable "f")) .nil) .nil)))
      (.next (.clause (.literal (.number ⟨"1.5", ⟨3, 2, false⟩, by decide⟩))) .done))
  distinct := by decide
  runs := by simp

theorem sampleScript_parsed :
    ∃ program, parseProgram (sampleScript.words.map fun w => ⟨w.1, w.2, .start⟩) = .ok program ∧
      program.unplaced = sampleScript.program :=
  parse_written_program sampleScript _ (by simp [Function.comp_def, Token.word])

end Scriptlet.Proofs.ProgramRendering
