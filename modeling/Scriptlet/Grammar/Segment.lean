import Scriptlet.Grammar.Fault

/-! Where a statement ends. The language has no separators: a statement ends where a token that can
end an expression is followed, outside all parentheses, by a token that can start a statement. A
braced block and a whole `if` or `while` are passed in one step. -/

namespace Scriptlet.Grammar

def endsExpression : TokenKind → Bool
  | .ident | .number | .string | .trueWord | .falseWord | .closeParen | .closeBrace => true
  | _ => false

def startsStatement : TokenKind → Bool
  | .ident | .number | .string | .trueWord | .falseWord | .openBrace | .ifWord | .whileWord
  | .elseWord | .returnWord | .funcWord => true
  | _ => false

/-- How many tokens there are up to and including the one that closes the bracket at the front.
`depth` brackets are open so far. -/
def closing? (opening closing : TokenKind) (depth : Nat) : List Token → Option Nat
  | [] => none
  | t :: rest =>
    if t.kind = opening then (closing? opening closing (depth + 1) rest).map (· + 1)
    else if t.kind = closing then
      if depth = 1 then some 1 else (closing? opening closing (depth - 1) rest).map (· + 1)
    else (closing? opening closing depth rest).map (· + 1)

/-- The length of the block at the front, braces included. -/
def blockLength (brace : Token) (rest : List Token) : Except ParseError Nat :=
  match closing? .openBrace .closeBrace 0 (brace :: rest) with
  | some n => .ok n
  | none => .error (brace.fault .unclosedBrace)

/-- Whether a statement ends between two tokens, the second one at the front of `after`. -/
def isBoundary (parens : Nat) (last : Token) (after : List Token) : Bool :=
  parens == 0 && endsExpression last.kind && after.head?.any (startsStatement ·.kind)

/-- The lengths of the parts of an `if`, the words `if` and `else` not counted. -/
structure BranchLengths where
  condition : Nat
  action : Nat
  otherwise : Option Nat
  deriving DecidableEq, Repr

def BranchLengths.total (parts : BranchLengths) : Nat :=
  1 + parts.condition + parts.action + (match parts.otherwise with
    | none => 0
    | some n => 1 + n)

/-- The lengths of the parts of a `while`, the word itself not counted. -/
structure LoopLengths where
  condition : Nat
  action : Nat
  deriving DecidableEq, Repr

def LoopLengths.total (parts : LoopLengths) : Nat := 1 + parts.condition + parts.action

mutual

/-- The length of the statement at the front of a token list. -/
def segmentLength (tokens : List Token) : Except ParseError Nat :=
  match tokens with
  | [] => .error ⟨.missingExpression, none⟩
  | t :: rest =>
    match t.kind with
    | .ifWord => (branchLengths t rest).map BranchLengths.total
    | .whileWord => (loopLengths t rest).map LoopLengths.total
    | .returnWord =>
      if rest.head?.all (fun next => next.kind = .elseWord ∨ next.kind = .closeBrace) then .ok 1
      else (scanLength true 0 rest).map (1 + ·)
    | _ => scanLength false 0 (t :: rest)
termination_by 3 * tokens.length + 2
decreasing_by all_goals grind

/-- The number of tokens that belong to the statement from here on, inside `parens` parentheses.
Before its first token a statement is not yet `started`. -/
def scanLength (started : Bool) (parens : Nat) (tokens : List Token) : Except ParseError Nat :=
  match tokens with
  | [] => .ok 0
  | t :: rest =>
    let goOn (parens length : Nat) : Except ParseError Nat :=
      if isBoundary parens ((t :: rest)[length - 1]?.getD t) (rest.drop (length - 1)) then .ok length
      else (scanLength true parens (rest.drop (length - 1))).map (length + ·)
    match t.kind with
    | .ifWord => do goOn parens (← branchLengths t rest).total
    | .whileWord => do goOn parens (← loopLengths t rest).total
    | .openBrace => do goOn parens (← blockLength t rest)
    | .openParen => goOn (parens + 1) 1
    | .closeParen =>
      if parens = 0 then if started then .ok 0 else .error (t.fault .strayCloseParen)
      else goOn (parens - 1) 1
    | .comma =>
      if parens = 0 then if started then .ok 0 else .error (t.fault .strayComma)
      else goOn parens 1
    | .closeBrace => .error (t.fault .strayCloseBrace)
    | .funcWord => .error (t.fault .strayFunction)
    | .elseWord => .error (t.fault .strayElse)
    | .returnWord => .error (t.fault .strayReturn)
    | _ => goOn parens 1
termination_by 3 * tokens.length + 1
decreasing_by all_goals grind

/-- The parts of the `if` whose first word is given apart. -/
def branchLengths (word : Token) (body : List Token) : Except ParseError BranchLengths :=
  if body.isEmpty then .error (word.fault .bareIf)
  else do
    let condition ← segmentLength body
    if (body.drop condition).isEmpty then throw (word.fault .missingIfAction)
    let action ← segmentLength (body.drop condition)
    match body[condition + action]? with
    | none => return ⟨condition, action, none⟩
    | some next =>
      if next.kind = .elseWord then
        if (body.drop (condition + action + 1)).isEmpty then throw (next.fault .bareElse)
        let otherwise ← segmentLength (body.drop (condition + action + 1))
        return ⟨condition, action, some otherwise⟩
      else return ⟨condition, action, none⟩
termination_by 3 * body.length + 3
decreasing_by all_goals grind

/-- The parts of the `while` whose first word is given apart. -/
def loopLengths (word : Token) (body : List Token) : Except ParseError LoopLengths :=
  if body.isEmpty then .error (word.fault .bareWhile)
  else do
    let condition ← segmentLength body
    if (body.drop condition).isEmpty then throw (word.fault .missingLoopAction)
    let action ← segmentLength (body.drop condition)
    return ⟨condition, action⟩
termination_by 3 * body.length + 3
decreasing_by all_goals grind

end

end Scriptlet.Grammar
