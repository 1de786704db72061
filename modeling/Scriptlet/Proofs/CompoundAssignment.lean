import Scriptlet.Proofs.GrammarPlaces
import Scriptlet.Proofs.OperatorGrouping

/-! Assignments that also compute. Such an assignment splits at its own operator, which comes second, so all that
stands behind it is one operand. The plain assignment written out says so with parentheses: what can be read has nested
brackets, and no rule that looks for an operator looks into those. -/

namespace Scriptlet.Proofs.CompoundAssignment
open Grammar GrammarShapes GrammarReading GrammarPlaces OperatorGrouping ConcreteSyntax

/-- The binary operator in an assignment that also computes. -/
def operatorIn? : TokenKind → Option TokenKind
  | .plusAssign => some .plus
  | .minusAssign => some .minus
  | .starAssign => some .star
  | .slashAssign => some .slash
  | _ => none

/-- Both forms name the same function. -/
theorem operatorIn_spec {updating plain : TokenKind} (within : operatorIn? updating = some plain) :
    plain ∈ binaryKinds ∧ updateFunction? updating = some (operatorFunction plain) := by
  unfold operatorIn? at within
  split at within
  case h_5 => cases within
  all_goals
    cases within
    decide

section Reading
variable {name operator : Token} {ts : List Token} {node : Node}

private theorem parse_update {function : String} (named : name.kind = .ident)
    (known : updateFunction? operator.kind = some function) (parsed : parse ts = .ok node) :
    parse (name :: operator :: ts) = .ok (.set name.position name.lexeme
      (operatorCall operator function [.get name.position name.lexeme, node])) := by
  rw [parse_of_shape (shape_update named known (parse_ne_nil parsed)), Shape.build, parsed]
  rfl

private theorem parse_assign (named : name.kind = .ident) (assigns : operator.kind = .assign)
    (parsed : parse ts = .ok node) :
    parse (name :: operator :: ts) = .ok (.set name.position name.lexeme node) := by
  rw [parse_of_shape (shape_assign named assigns (parse_ne_nil parsed)), Shape.build, parsed]
  rfl

/-- A variable, an operator and a stretch in parentheses make one call, whatever the stretch holds. -/
theorem parse_operation {first last : Token} (named : name.kind = .ident) (binary : operator.kind ∈ binaryKinds)
    (opens : first.kind = .openParen) (closes : last.kind = .closeParen) (parsed : parse ts = .ok node) :
    parse (name :: operator :: first :: (ts ++ [last])) =
      .ok (operatorCall operator (operatorFunction operator.kind) [.get name.position name.lexeme, node]) := by
  have plain : name.kind ∈ wordKinds := by simp [named, wordKinds]
  have front := (Operand.word name plain).parse_tokens.trans (if_pos named)
  have back := (Operand.group first ts last opens closes ⟨node, parsed⟩).parse_tokens.trans parsed
  have shaped := shape_binary ((Operand.word name plain).side _)
    ((Operand.group first ts last opens closes ⟨node, parsed⟩).side _) binary
  have built := parse_of_shape shaped
  rw [Shape.build, front, back] at built
  exact built

end Reading

/-- An assignment that also computes is read as the plain assignment written out, with all that stands behind its
operator in parentheses, up to places: here the two may stand anywhere, and only what their tokens say is the same.
What was read behind the operator is the right operand as a whole. -/
theorem update_read_as_assignment {ts us : List Token} {node : Node} (parsed : parse ts = .ok node)
    (alike : ts.map Token.word = us.map Token.word) {name updating target equals old operator first last : Token}
    (named : name.kind = .ident) (within : operatorIn? updating.kind = some operator.kind)
    (sameTarget : target.word = name.word) (assigns : equals.kind = .assign) (sameOld : old.word = name.word)
    (opens : first.kind = .openParen) (closes : last.kind = .closeParen) :
    ∃ short long, parse (name :: updating :: ts) = .ok short ∧
      parse (target :: equals :: old :: operator :: first :: (us ++ [last])) = .ok long ∧
      short.unplaced = long.unplaced ∧
      short.unplaced = .set {} name.lexeme
        (.call {} (.get {} (operatorFunction operator.kind)) [.get {} name.lexeme, node.unplaced]) := by
  obtain ⟨binary, known⟩ := operatorIn_spec within
  obtain ⟨targetKind, targetLexeme⟩ := Prod.mk.inj sameTarget
  obtain ⟨oldKind, oldLexeme⟩ := Prod.mk.inj sameOld
  obtain ⟨again, parsedAgain, same⟩ := parse_words alike parsed
  have operation := parse_operation (oldKind.trans named) binary opens closes parsedAgain
  refine ⟨_, _, parse_update named known parsed, parse_assign (targetKind.trans named) assigns operation, ?_, ?_⟩
  · simp only [operatorCall, Node.unplaced, Node.unplacedAll, targetLexeme, oldLexeme, same]
  · simp only [operatorCall, Node.unplaced, Node.unplacedAll]

/-- A value with an assignment, operators and a block in it, at some column of the first line. -/
def sampleChoice (column : Int) : List Token :=
  [⟨.ifWord, "if", ⟨1, column⟩⟩, ⟨.ident, "a", ⟨1, column + 3⟩⟩, ⟨.openBrace, "\x7b", ⟨1, column + 5⟩⟩,
    ⟨.ident, "y", ⟨1, column + 7⟩⟩, ⟨.plusAssign, "+=", ⟨1, column + 9⟩⟩, ⟨.number, "1", ⟨1, column + 12⟩⟩,
    ⟨.minus, "-", ⟨1, column + 14⟩⟩, ⟨.number, "2", ⟨1, column + 16⟩⟩, ⟨.closeBrace, "\x7d", ⟨1, column + 18⟩⟩,
    ⟨.elseWord, "else", ⟨1, column + 20⟩⟩, ⟨.number, "3", ⟨1, column + 25⟩⟩, ⟨.equal, "==", ⟨1, column + 27⟩⟩,
    ⟨.number, "4", ⟨1, column + 30⟩⟩]

def sampleDecrease : List Token :=
  ⟨.ident, "x", ⟨1, 1⟩⟩ :: ⟨.minusAssign, "-=", ⟨1, 3⟩⟩ :: sampleChoice 6

def sampleInFull : List Token :=
  ⟨.ident, "x", ⟨1, 1⟩⟩ :: ⟨.assign, "=", ⟨1, 3⟩⟩ :: ⟨.ident, "x", ⟨1, 5⟩⟩ :: ⟨.minus, "-", ⟨1, 7⟩⟩ ::
    ⟨.openParen, "(", ⟨1, 9⟩⟩ :: (sampleChoice 10 ++ [⟨.closeParen, ")", ⟨1, 41⟩⟩])

theorem sampleDecrease_written_out :
    tokenize "x -= if a \x7b y += 1 - 2 \x7d else 3 == 4" = .ok sampleDecrease ∧
    tokenize "x = x - (if a \x7b y += 1 - 2 \x7d else 3 == 4)" = .ok sampleInFull ∧
    ∃ short long, parse sampleDecrease = .ok short ∧ parse sampleInFull = .ok long ∧
      short.unplaced = long.unplaced := by
  refine ⟨by decide +kernel, by decide +kernel, ?_⟩
  have accepted : (parse (sampleChoice 6)).isOk = true := by decide +kernel
  cases parsed : parse (sampleChoice 6) with
  | error e =>
    rw [parsed] at accepted
    cases accepted
  | ok node =>
    have alike : (sampleChoice 6).map Token.word = (sampleChoice 10).map Token.word := rfl
    obtain ⟨short, long, shortParsed, longParsed, same, _⟩ :=
      @update_read_as_assignment _ _ _ parsed alike ⟨.ident, "x", ⟨1, 1⟩⟩ ⟨.minusAssign, "-=", ⟨1, 3⟩⟩
        ⟨.ident, "x", ⟨1, 1⟩⟩ ⟨.assign, "=", ⟨1, 3⟩⟩ ⟨.ident, "x", ⟨1, 5⟩⟩ ⟨.minus, "-", ⟨1, 7⟩⟩
        ⟨.openParen, "(", ⟨1, 9⟩⟩ ⟨.closeParen, ")", ⟨1, 41⟩⟩ rfl rfl rfl rfl rfl rfl rfl
    exact ⟨short, long, shortParsed, longParsed, same⟩

end Scriptlet.Proofs.CompoundAssignment
