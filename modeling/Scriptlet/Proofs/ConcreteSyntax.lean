import Scriptlet.Proofs.GrammarCuts
import Scriptlet.Proofs.GrammarReading
import Mathlib.Data.List.Forall2

/-! How a program tree was written. A program tree shows neither its brackets nor which of its calls stand
for an operator; a phrase shows both. A phrase has the tokens it was written with and the tree it means,
and everything that is read at all was written as a phrase. -/

namespace Scriptlet.Proofs.ConcreteSyntax
open Grammar GrammarNesting GrammarSegments GrammarShapes GrammarCuts GrammarReading

/-- The constant that a token says on its own. -/
def literal? (t : Token) : Option Value :=
  match t.kind with
  | .number => (Number.parse? t.lexeme).map .number
  | .string => some (.string t.lexeme)
  | .trueWord => some (.bool true)
  | .falseWord => some (.bool false)
  | _ => none

theorem literal_kind {t : Token} {value : Value} (meant : literal? t = some value) :
    t.kind ∈ leafKinds ∧ t.kind ≠ .ident := by
  rw [literal?] at meant
  split at meant
  case h_5 => cases meant
  all_goals
    next kind =>
      rw [kind]
      decide

mutual

inductive Phrase where
  | name (t : Token) (named : t.kind = .ident)
  | constant (t : Token) (value : Value) (meant : literal? t = some value)
  | group (first : Token) (inner : Phrase) (last : Token) (opens : first.kind = .openParen)
      (closes : last.kind = .closeParen)
  | block (first : Token) (body : Body) (last : Token) (opens : first.kind = .openBrace)
      (closes : last.kind = .closeBrace)
  | stop (word : Token) (returns : word.kind = .returnWord)
  | ret (word : Token) (value : Phrase) (returns : word.kind = .returnWord)
  | branch (word : Token) (condition action : Phrase) (branches : word.kind = .ifWord)
  | choice (word : Token) (condition action : Phrase) (opposite : Token) (otherwise : Phrase)
      (branches : word.kind = .ifWord) (turns : opposite.kind = .elseWord)
  | loop (word : Token) (condition action : Phrase) (loops : word.kind = .whileWord)
  | unary (operator : Token) (function : String) (operand : Phrase)
      (known : unaryFunction? operator.kind = some function)
  | binary (left : Phrase) (operator : Token) (right : Phrase) (known : operator.kind ∈ binaryKinds)
  | assign (target operator : Token) (value : Phrase) (named : target.kind = .ident)
      (assigns : operator.kind = .assign)
  | update (target operator : Token) (function : String) (value : Phrase) (named : target.kind = .ident)
      (known : updateFunction? operator.kind = some function)
  | invoke (callee : Phrase) (first last : Token) (opens : first.kind = .openParen)
      (closes : last.kind = .closeParen)
  | call (callee : Phrase) (first : Token) (inputs : Inputs) (last : Token) (opens : first.kind = .openParen)
      (closes : last.kind = .closeParen)
  | member (base : Phrase) (dot field : Token) (dotted : dot.kind = .dot) (named : field.kind = .ident)

/-- Statements, one after the other. -/
inductive Body where
  | nil
  | cons (first : Phrase) (others : Body)

/-- Arguments with commas between them. -/
inductive Inputs where
  | one (last : Phrase)
  | more (first : Phrase) (comma : Token) (others : Inputs) (divides : comma.kind = .comma)

end

mutual

def Phrase.tokens : Phrase → List Token
  | .name t _ => [t]
  | .constant t _ _ => [t]
  | .group first inner last _ _ => first :: (inner.tokens ++ [last])
  | .block first body last _ _ => first :: (body.tokens ++ [last])
  | .stop word _ => [word]
  | .ret word value _ => word :: value.tokens
  | .branch word condition action _ => word :: (condition.tokens ++ action.tokens)
  | .choice word condition action opposite otherwise _ _ =>
    word :: (condition.tokens ++ (action.tokens ++ opposite :: otherwise.tokens))
  | .loop word condition action _ => word :: (condition.tokens ++ action.tokens)
  | .unary operator _ operand _ => operator :: operand.tokens
  | .binary left operator right _ => left.tokens ++ operator :: right.tokens
  | .assign target operator value _ _ => target :: operator :: value.tokens
  | .update target operator _ value _ _ => target :: operator :: value.tokens
  | .invoke callee first last _ _ => callee.tokens ++ [first, last]
  | .call callee first inputs last _ _ => callee.tokens ++ first :: (inputs.tokens ++ [last])
  | .member base dot field _ _ => base.tokens ++ [dot, field]

def Body.tokens : Body → List Token
  | .nil => []
  | .cons first others => first.tokens ++ others.tokens

def Inputs.tokens : Inputs → List Token
  | .one last => last.tokens
  | .more first comma others _ => first.tokens ++ comma :: others.tokens

end

/-- Where the first token stands. -/
def Phrase.start (phrase : Phrase) : Position :=
  match phrase.tokens with
  | [] => {}
  | t :: _ => t.position

mutual

def Phrase.node : Phrase → Node
  | .name t _ => .get t.position t.lexeme
  | .constant t value _ => .const t.position value
  | .group _ inner _ _ _ => inner.node
  | .block first body _ _ _ => .block first.position body.nodes
  | .stop word _ => .ret word.position (.const word.position .empty)
  | .ret word value _ => .ret word.position value.node
  | .branch word condition action _ => .branch word.position condition.node action.node .absent
  | .choice word condition action _ otherwise _ _ =>
    .branch word.position condition.node action.node otherwise.node
  | .loop word condition action _ => .loop word.position condition.node action.node
  | .unary operator function operand _ => operatorCall operator function [operand.node]
  | .binary left operator right _ =>
    operatorCall operator (operatorFunction operator.kind) [left.node, right.node]
  | .assign target _ value _ _ => .set target.position target.lexeme value.node
  | .update target operator function value _ _ =>
    .set target.position target.lexeme
      (operatorCall operator function [.get target.position target.lexeme, value.node])
  | .invoke callee _ _ _ _ => .call callee.start callee.node []
  | .call callee _ inputs _ _ _ => .call callee.start callee.node inputs.nodes
  | .member base dot field _ _ => .member dot.position base.node field.lexeme

def Body.nodes : Body → List Node
  | .nil => []
  | .cons first others => first.node :: others.nodes

def Inputs.nodes : Inputs → List Node
  | .one last => [last.node]
  | .more first _ others _ => first.node :: others.nodes

end

def Written (ts : List Token) (node : Node) : Prop := ∃ phrase : Phrase, phrase.tokens = ts ∧ phrase.node = node

def WrittenBody (ts : List Token) (nodes : List Node) : Prop := ∃ body : Body, body.tokens = ts ∧ body.nodes = nodes

def WrittenInputs (ts : List Token) (nodes : List Node) : Prop :=
  ∃ inputs : Inputs, inputs.tokens = ts ∧ inputs.nodes = nodes

variable {ts : List Token} {node : Node} {nodes : List Node}

/-- The kinds of the operators, unary, binary and assigning ones. -/
def operatorKinds : List TokenKind := .notWord :: (assignmentKinds ++ binaryKinds)

section Operators
variable {kind : TokenKind} {function : String}

theorem operator_of_unary (known : unaryFunction? kind = some function) : kind ∈ operatorKinds := by
  unfold unaryFunction? at known
  split at known
  case h_3 => cases known
  all_goals decide

theorem operator_of_update (known : updateFunction? kind = some function) : kind ∈ operatorKinds :=
  List.mem_cons_of_mem _ (List.mem_append_left _ (updates_assigns known))

theorem operator_of_binary (known : kind ∈ binaryKinds) : kind ∈ operatorKinds :=
  List.mem_cons_of_mem _ (List.mem_append_right _ known)

theorem operator_plain (operator : kind ∈ operatorKinds) : kind ∉ leafKinds ∧ ¬IsBracket kind := by
  have all : ∀ kind ∈ operatorKinds, kind ∉ leafKinds ∧ ¬IsBracket kind := by decide
  exact all kind operator

end Operators

private theorem shape_of_parse (parsed : parse ts = .ok node) :
    ∃ found, shape ts = .ok found ∧ (found.build fun part _ => parse part) = .ok node := by
  cases shaped : shape ts with
  | error e =>
    rw [parse] at parsed
    split at parsed
    · cases parsed
    next right =>
      rw [shaped] at right
      cases right
  | ok found => exact ⟨found, rfl, parse_of_shape shaped ▸ parsed⟩

private theorem leaf_cases {t : Token} (taken : leafRule t [] = .ok (some (.leaf node))) :
    t.kind = .ident ∧ node = .get t.position t.lexeme ∨
    ∃ value, literal? t = some value ∧ node = .const t.position value := by
  simp only [leafRule, List.isEmpty_nil, ↓reduceIte] at taken
  split at taken
  next named =>
    cases taken
    exact Or.inl ⟨named, rfl⟩
  next kind =>
    split at taken
    next n said =>
      cases taken
      exact Or.inr ⟨.number n, by simp [literal?, kind, said], rfl⟩
    · cases taken
  next kind =>
    cases taken
    exact Or.inr ⟨.string t.lexeme, by simp [literal?, kind], rfl⟩
  next kind =>
    cases taken
    exact Or.inr ⟨.bool true, by simp [literal?, kind], rfl⟩
  next kind =>
    cases taken
    exact Or.inr ⟨.bool false, by simp [literal?, kind], rfl⟩
  · cases taken

def PiecesWritten (pieces : Pieces) (nodes : List Node) : Prop :=
  pieces.trailing = none ∧ List.Forall₂ Written pieces.pieces nodes

private theorem forall_written {pieces : List (List Token)} (parsed : pieces.mapM parse = .ok nodes)
    (written : ∀ piece ∈ pieces, ∀ node, parse piece = .ok node → Written piece node) :
    List.Forall₂ Written pieces nodes := by
  induction pieces generalizing nodes with
  | nil =>
    cases parsed
    exact .nil
  | cons piece others ih =>
    rw [List.mapM_cons] at parsed
    obtain ⟨node, here, parsed⟩ := bind_eq_ok parsed
    obtain ⟨later, there, done⟩ := bind_eq_ok parsed
    cases done
    obtain ⟨first, rest⟩ := List.forall_mem_cons.mp written
    exact .cons (first node here) (ih there rest)

private theorem piecesWritten_of_build {pieces : Pieces} (built : (pieces.build fun part _ => parse part) = .ok nodes)
    (written : ∀ piece ∈ pieces.pieces, ∀ node, parse piece = .ok node → Written piece node) :
    PiecesWritten pieces nodes := by
  rw [build_eq] at built
  obtain ⟨found, parsed, ended⟩ := bind_eq_ok built
  split at ended
  · cases ended
  next complete =>
    cases ended
    exact ⟨complete, forall_written parsed written⟩

theorem PiecesWritten.pop {piece : List Token} {others : Pieces} (written : PiecesWritten (others.push piece) nodes) :
    ∃ node later, nodes = node :: later ∧ Written piece node ∧ PiecesWritten others later := by
  obtain ⟨complete, all⟩ := written
  cases all with
  | cons first rest => exact ⟨_, _, rfl, first, complete, rest⟩

theorem Phrase.tokens_ne_nil (phrase : Phrase) : phrase.tokens ≠ [] := by
  cases phrase <;> simp [Phrase.tokens]

private theorem writtenBody_of_statements (written : PiecesWritten (statements ts) nodes) : WrittenBody ts nodes := by
  fun_induction statements ts generalizing nodes with
  | case1 =>
    cases written.2
    exact ⟨.nil, rfl, rfl⟩
  | case2 => cases written.1
  | case3 t rest n _ ih =>
    obtain ⟨node, later, rfl, ⟨first, firstTokens, rfl⟩, after⟩ := written.pop
    obtain ⟨others, othersTokens, rfl⟩ := ih after
    refine ⟨.cons first others, ?_, rfl⟩
    -- No statement is without tokens, so what is taken and what is dropped fit together.
    cases n with
    | zero => exact absurd firstTokens first.tokens_ne_nil
    | succ n =>
      rw [Body.tokens, firstTokens, othersTokens, List.take_succ_cons, Nat.add_sub_cancel, List.cons_append,
        List.take_append_drop]

private theorem writtenInputs_of_cut {last : Token} {depth : Int} {held : List Token}
    (written : PiecesWritten (cutArguments last depth held ts) nodes) : WrittenInputs (held.reverse ++ ts) nodes := by
  induction ts generalizing depth held nodes with
  | nil =>
    rw [cutArguments] at written
    split at written
    · cases written.1
    · obtain ⟨node, later, rfl, ⟨phrase, tokens, rfl⟩, after⟩ := @PiecesWritten.pop _ held.reverse ⟨[], none⟩ written
      cases after.2
      exact ⟨.one phrase, by rw [Inputs.tokens, tokens, List.append_nil], rfl⟩
  | cons t rest ih =>
    rw [cutArguments] at written
    split at written
    next divides =>
      split at written
      · cases written.1
      · obtain ⟨node, later, rfl, ⟨first, firstTokens, rfl⟩, after⟩ := written.pop
        obtain ⟨others, othersTokens, rfl⟩ := ih after
        refine ⟨.more first t others divides.1, ?_, rfl⟩
        rw [Inputs.tokens, firstTokens, othersTokens]
        rfl
    · have whole := ih written
      rw [List.reverse_cons, List.append_assoc] at whole
      exact whole

theorem start_eq {phrase : Phrase} {t : Token} (front : phrase.tokens.head? = some t) : phrase.start = t.position := by
  rw [Phrase.start]
  split
  next none =>
    rw [none] at front
    cases front
  next first _ given =>
    rw [given] at front
    cases front
    rfl

private theorem written_of_cut {found : Shape} (cut : Cut found ts)
    (built : (found.build fun part _ => parse part) = .ok node)
    (parts : ∀ part ∈ found.parts, ∀ node, parse part = .ok node → Written part node) : Written ts node := by
  cases cut with
  | @leaf t _ taken =>
    cases built
    rcases leaf_cases taken with ⟨named, rfl⟩ | ⟨value, meant, rfl⟩
    · exact ⟨.name t named, rfl, rfl⟩
    · exact ⟨.constant t value meant, rfl, rfl⟩
  | @stop t word =>
    cases built
    exact ⟨.stop t word, rfl, rfl⟩
  | @group first last inner opens closes =>
    obtain ⟨phrase, rfl, rfl⟩ := parts inner (by simp [Shape.parts]) node built
    exact ⟨.group first phrase last opens closes, rfl, rfl⟩
  | @block first last inner opens closes =>
    obtain ⟨nodes, statementsBuilt, done⟩ := bind_eq_ok built
    cases done
    obtain ⟨body, rfl, rfl⟩ := writtenBody_of_statements (piecesWritten_of_build statementsBuilt parts)
    exact ⟨.block first body last opens closes, rfl, rfl⟩
  | @ret t value word =>
    obtain ⟨inner, parsed, done⟩ := bind_eq_ok built
    cases done
    obtain ⟨phrase, rfl, rfl⟩ := parts value (by simp [Shape.parts]) inner parsed
    exact ⟨.ret t phrase word, rfl, rfl⟩
  | @branch t condition action word =>
    obtain ⟨test, testParsed, built⟩ := bind_eq_ok built
    obtain ⟨deed, deedParsed, done⟩ := bind_eq_ok built
    cases done
    obtain ⟨condition, rfl, rfl⟩ := parts condition (by simp [Shape.parts]) test testParsed
    obtain ⟨action, rfl, rfl⟩ := parts action (by simp [Shape.parts]) deed deedParsed
    exact ⟨.branch t condition action word, rfl, rfl⟩
  | @choice t opposite condition action otherwise word other =>
    obtain ⟨test, testParsed, built⟩ := bind_eq_ok built
    obtain ⟨deed, deedParsed, built⟩ := bind_eq_ok built
    obtain ⟨last, lastParsed, done⟩ := bind_eq_ok built
    cases done
    obtain ⟨condition, rfl, rfl⟩ := parts condition (by simp [Shape.parts]) test testParsed
    obtain ⟨action, rfl, rfl⟩ := parts action (by simp [Shape.parts]) deed deedParsed
    obtain ⟨otherwise, rfl, rfl⟩ := parts otherwise (by simp [Shape.parts]) last lastParsed
    exact ⟨.choice t condition action opposite otherwise word other, rfl, rfl⟩
  | @loop t condition action word =>
    obtain ⟨test, testParsed, built⟩ := bind_eq_ok built
    obtain ⟨deed, deedParsed, done⟩ := bind_eq_ok built
    cases done
    obtain ⟨condition, rfl, rfl⟩ := parts condition (by simp [Shape.parts]) test testParsed
    obtain ⟨action, rfl, rfl⟩ := parts action (by simp [Shape.parts]) deed deedParsed
    exact ⟨.loop t condition action word, rfl, rfl⟩
  | @unary operator function operand known =>
    obtain ⟨inner, parsed, done⟩ := bind_eq_ok built
    cases done
    obtain ⟨phrase, rfl, rfl⟩ := parts operand (by simp [Shape.parts]) inner parsed
    exact ⟨.unary operator function phrase known, rfl, rfl⟩
  | @binary operator left right known =>
    obtain ⟨first, firstParsed, built⟩ := bind_eq_ok built
    obtain ⟨second, secondParsed, done⟩ := bind_eq_ok built
    cases done
    obtain ⟨left, rfl, rfl⟩ := parts left (by simp [Shape.parts]) first firstParsed
    obtain ⟨right, rfl, rfl⟩ := parts right (by simp [Shape.parts]) second secondParsed
    exact ⟨.binary left operator right known, rfl, rfl⟩
  | @assign name operator value named assigns =>
    obtain ⟨inner, parsed, done⟩ := bind_eq_ok built
    cases done
    obtain ⟨phrase, rfl, rfl⟩ := parts value (by simp [Shape.parts]) inner parsed
    exact ⟨.assign name operator phrase named assigns, rfl, rfl⟩
  | @update name operator function value named known =>
    obtain ⟨inner, parsed, done⟩ := bind_eq_ok built
    cases done
    obtain ⟨phrase, rfl, rfl⟩ := parts value (by simp [Shape.parts]) inner parsed
    exact ⟨.update name operator function phrase named known, rfl, rfl⟩
  | @call t paren last callee inner opens closes front =>
    obtain ⟨function, functionParsed, built⟩ := bind_eq_ok built
    obtain ⟨nodes, inputsBuilt, done⟩ := bind_eq_ok built
    cases done
    have inputs : PiecesWritten (arguments paren inner) nodes :=
      piecesWritten_of_build inputsBuilt fun piece member => parts piece (List.mem_cons_of_mem _ member)
    obtain ⟨callee, rfl, rfl⟩ := parts callee (by simp [Shape.parts]) function functionParsed
    rw [← start_eq front]
    rw [arguments] at inputs
    split at inputs
    next none =>
      cases inputs.2
      rw [List.isEmpty_iff.mp none]
      exact ⟨.invoke callee paren last opens closes, rfl, rfl⟩
    · obtain ⟨list, rfl, rfl⟩ := writtenInputs_of_cut inputs
      exact ⟨.call callee paren list last opens closes, rfl, rfl⟩
  | @member dot name base dotted named =>
    obtain ⟨inner, parsed, done⟩ := bind_eq_ok built
    cases done
    obtain ⟨phrase, rfl, rfl⟩ := parts base (by simp [Shape.parts]) inner parsed
    exact ⟨.member phrase dot name dotted named, rfl, rfl⟩

theorem written_of_parse (parsed : parse ts = .ok node) : Written ts node := by
  induction length : ts.length using Nat.strongRecOn generalizing ts node with
  | ind n ih =>
    subst length
    obtain ⟨found, shaped, built⟩ := shape_of_parse parsed
    -- Every part is shorter than the whole, so it is a phrase already.
    apply written_of_cut (cut_of_shape shaped) built
    intro part member inner read
    exact ih part.length (length_lt_of_mem_parts shaped member) read rfl

theorem writtenBody_of_parse (parsed : parseStatements ts = .ok nodes) : WrittenBody ts nodes :=
  writtenBody_of_statements (piecesWritten_of_build parsed fun _ _ _ => written_of_parse)

section Programs
variable {program : Program}

theorem statements_of_fragment (read : parseFragment ts = .ok program) :
    ∃ rest, hoist ts = .ok (program.functions, rest) ∧ parseStatements rest = .ok program.statements := by
  obtain ⟨⟨functions, rest⟩, hoisted, read⟩ := bind_eq_ok read
  cases rest with
  | nil =>
    cases read
    have none : parseStatements [] = .ok [] := by rw [parseStatements, statements]; rfl
    exact ⟨[], hoisted, none⟩
  | cons t rest =>
    obtain ⟨nodes, parsed, done⟩ := bind_eq_ok read
    cases done
    exact ⟨t :: rest, hoisted, parsed⟩

/-- What is a program is also a fragment. -/
theorem fragment_of_program (read : parseProgram ts = .ok program) : parseFragment ts = .ok program := by
  obtain ⟨⟨functions, rest⟩, hoisted, read⟩ := bind_eq_ok read
  rw [parseFragment, hoisted]
  cases rest with
  | nil => cases read
  | cons t rest => exact read

end Programs

end Scriptlet.Proofs.ConcreteSyntax
