import Scriptlet.Grammar.Split
import Scriptlet.Node.Basic

/-! The shape of a statement: which rule of the grammar it falls under, and which of its tokens make
up its parts. The rules are tried in a fixed order and the first that applies decides. -/

namespace Scriptlet.Grammar

inductive Shape where
  | leaf (node : Node)
  | group (inner : List Token)
  | block (position : Position) (statements : Pieces)
  | ret (position : Position) (value : List Token)
  | branch (position : Position) (condition action : List Token) (otherwise : Option (List Token))
  | loop (position : Position) (condition action : List Token)
  | unary (operator : Token) (function : String) (operand : List Token)
  | binary (operator : Token) (function : String) (left right : List Token)
  | assign (name : Token) (value : List Token)
  | update (name operator : Token) (function : String) (value : List Token)
  | call (position : Position) (callee : List Token) (arguments : Pieces)
  | member (dot : Token) (base : List Token) (name : String)

/-- The token lists that are still to be read, from left to right. -/
def Shape.parts : Shape → List (List Token)
  | leaf _ => []
  | group inner => [inner]
  | block _ statements => statements.pieces
  | ret _ value => [value]
  | branch _ condition action otherwise => condition :: action :: otherwise.toList
  | loop _ condition action => [condition, action]
  | unary _ _ operand => [operand]
  | binary _ _ left right => [left, right]
  | assign _ value => [value]
  | update _ _ _ value => [value]
  | call _ callee arguments => callee :: arguments.pieces
  | member _ base _ => [base]

/-- A rule gives the shape of the statements to which it applies. -/
abbrev Rule := Token → List Token → Except ParseError (Option Shape)

def groupRule : Rule := fun t rest =>
  if t.kind = .openParen then
    match closing? .openParen .closeParen 0 (t :: rest) with
    | none => .error (t.fault .unclosedParen)
    | some n =>
      if n ≠ (t :: rest).length then .ok none
      else if n = 2 then .error (t.fault .emptyParens)
      else .ok (some (.group rest.dropLast))
  else .ok none

def blockRule : Rule := fun t rest =>
  if t.kind = .openBrace then
    match blockLength t rest with
    | .error e => .error e
    | .ok n =>
      if n ≠ (t :: rest).length then .ok none
      else .ok (some (.block t.position (statements rest.dropLast)))
  else .ok none

def returnRule : Rule := fun t rest =>
  if t.kind = .returnWord then
    if rest.isEmpty then .ok (some (.leaf (.ret t.position (.const t.position .empty))))
    else .ok (some (.ret t.position rest))
  else .ok none

def branchRule : Rule := fun t rest =>
  if t.kind = .ifWord then
    match branchLengths t rest with
    | .error e => .error e
    | .ok parts =>
      if parts.total ≠ (t :: rest).length then
        .error ((rest[parts.total - 1]?.getD t).fault .tokensAfterIf)
      else
        let after := rest.drop parts.condition
        let otherwise := parts.otherwise.map fun _ => after.drop (parts.action + 1)
        .ok (some (.branch t.position (rest.take parts.condition) (after.take parts.action) otherwise))
  else .ok none

def loopRule : Rule := fun t rest =>
  if t.kind = .whileWord then
    match loopLengths t rest with
    | .error e => .error e
    | .ok parts =>
      if parts.total ≠ (t :: rest).length then
        .error ((rest[parts.total - 1]?.getD t).fault .tokensAfterLoop)
      else .ok (some (.loop t.position (rest.take parts.condition) (rest.drop parts.condition)))
  else .ok none

def negationRule : Rule := fun t rest =>
  if t.kind = .minus then
    if rest.isEmpty then .error (t.fault .bareMinus)
    else .ok (some (.unary t "__negate" rest))
  else .ok none

/-- A single token is a variable or a constant, or nothing at all. -/
def leafRule : Rule := fun t rest =>
  if rest.isEmpty then
    let const (v : Value) : Except ParseError (Option Shape) :=
      .ok (some (.leaf (.const t.position v)))
    match t.kind with
    | .ident => .ok (some (.leaf (.get t.position t.lexeme)))
    | .number => match Number.parse? t.lexeme with
      | some n => const (.number n)
      | none => .error (t.fault (.badNumber t.lexeme))
    | .string => const (.string t.lexeme)
    | .trueWord => const (.bool true)
    | .falseWord => const (.bool false)
    | kind => .error (t.fault (.strayToken kind))
  else .ok none

/-- The function behind an assignment that also computes. -/
def updateFunction? : TokenKind → Option String
  | .plusAssign => some "__add"
  | .minusAssign => some "__subtract"
  | .starAssign => some "__multiply"
  | .slashAssign => some "__divide"
  | _ => none

def assignmentKinds : List TokenKind := [.assign, .plusAssign, .minusAssign, .starAssign, .slashAssign]

def assignmentRule : Rule := fun t rest =>
  match splitAt? assignmentKinds (t :: rest) with
  | none => .ok none
  | some split =>
    if split.before.length ≠ 1 ∨ t.kind ≠ .ident then
      .error (split.operator.fault .badAssignmentTarget)
    else if split.after.isEmpty then
      .error (split.operator.fault (.missingAssignedValue split.operator.kind))
    else match updateFunction? split.operator.kind with
      | some function => .ok (some (.update t split.operator function split.after))
      | none => .ok (some (.assign t split.after))

/-- The two operands of an operator, both of which must be there. -/
def binaryShape (function : String) (split : Split) : Except ParseError (Option Shape) :=
  if split.before.isEmpty then
    .error (split.operator.fault (.missingLeftOperand split.operator.kind))
  else if split.after.isEmpty then
    .error (split.operator.fault (.missingRightOperand split.operator.kind))
  else .ok (some (.binary split.operator function split.before split.after))

/-- The function behind a binary operator. -/
def operatorFunction : TokenKind → String
  | .equal => "__equal"
  | .notEqual => "__not_equal"
  | .greater => "__greater_than"
  | .greaterEqual => "__greater_than_or_equal"
  | .less => "__less_than"
  | .lessEqual => "__less_than_or_equal"
  | .plus => "__add"
  | .minus => "__subtract"
  | .star => "__multiply"
  | .slash => "__divide"
  | .orWord => "__or"
  | .andWord => "__and"
  | _ => ""

/-- Operators of one level, split at the first of them. -/
def operatorRule (kinds : List TokenKind) : Rule := fun t rest =>
  match splitAt? kinds (t :: rest) with
  | none => .ok none
  | some split => binaryShape (operatorFunction split.operator.kind) split

def isSign (kind : TokenKind) : Bool := kind == .plus || kind == .minus

def endsOperand : TokenKind → Bool
  | .number | .ident | .string | .closeParen | .closeBrace => true
  | _ => false

/-- A plus or minus is binary only behind a token that can end an operand. -/
def additiveRule : Rule := fun t rest =>
  let wanted (previous : Option Token) (t : Token) : Bool :=
    isSign t.kind && previous.any (endsOperand ·.kind)
  match splitOutside? wanted none 0 0 (t :: rest) with
  | none => .ok none
  | some split =>
    match split.after.head? with
    | some next =>
      if isSign next.kind then .error (next.fault .doubleAdditive)
      else binaryShape (operatorFunction split.operator.kind) split
    | none => binaryShape (operatorFunction split.operator.kind) split

def notRule : Rule := fun t rest =>
  match splitAt? [.notWord] (t :: rest) with
  | none => .ok none
  | some split =>
    if ¬split.before.isEmpty then .error (t.fault .tokensBeforeNot)
    else if rest.isEmpty then .error (t.fault .bareNot)
    else .ok (some (.unary t "__not" rest))

/-- A call ends in a closing parenthesis, and all tokens before the matching one are the callee. The
tokens are taken from the end. -/
def callRule : Rule := fun t rest =>
  match (t :: rest).reverse with
  | [] => .ok none
  | last :: front =>
    if last.kind = .closeParen then
      match closing? .closeParen .openParen 0 (last :: front) with
      | none => .error (last.fault .unpairedCloseParen)
      | some n =>
        let callee := (front.drop (n - 1)).reverse
        if callee.isEmpty then .error (t.fault .missingCallee)
        else
          let paren := front[n - 2]?.getD last
          .ok (some (.call t.position callee (arguments paren (front.take (n - 2)).reverse)))
    else .ok none

def memberRule : Rule := fun t rest =>
  match (t :: rest).reverse with
  | name :: dot :: base =>
    if name.kind = .ident ∧ dot.kind = .dot ∧ ¬base.isEmpty then
      .ok (some (.member dot base.reverse name.lexeme))
    else .ok none
  | _ => .ok none

/-- The rules in the order in which they are tried. Operators that bind loosely come first. -/
def rules : List Rule :=
  [groupRule, blockRule, returnRule, branchRule, loopRule, negationRule, leafRule, assignmentRule,
    operatorRule [.equal, .notEqual, .greater, .greaterEqual, .less, .lessEqual], additiveRule,
    operatorRule [.star, .slash], operatorRule [.orWord], operatorRule [.andWord], notRule, callRule,
    memberRule]

def firstShape (t : Token) (rest : List Token) : List Rule → Except ParseError Shape
  | [] => .error (t.fault .noRule)
  | rule :: others =>
    match rule t rest with
    | .error e => .error e
    | .ok (some shape) => .ok shape
    | .ok none => firstShape t rest others

/-- The shape of the tokens of one statement. -/
def shape : List Token → Except ParseError Shape
  | [] => .error ⟨.missingExpression, none⟩
  | t :: rest => firstShape t rest rules

end Scriptlet.Grammar
