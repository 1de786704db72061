import Scriptlet.Number.Decimal
import Scriptlet.Token.Basic

/-! What can be wrong with the tokens of a program. -/

namespace Scriptlet

inductive ParseFault where
  | missingFunctionName
  | missingParameterList
  | unclosedParameterList (function : String)
  | badParameter
  | badParameterSeparator
  | missingBody (function : String)
  | emptyProgram
  | missingExpression
  | strayCloseParen
  | strayComma
  | strayCloseBrace
  | strayFunction
  | strayElse
  | strayReturn
  | bareIf
  | missingIfAction
  | bareElse
  | tokensAfterIf
  | bareWhile
  | missingLoopAction
  | tokensAfterLoop
  | unclosedBrace
  | unclosedParen
  | emptyParens
  | missingLeftOperand (operator : TokenKind)
  | missingRightOperand (operator : TokenKind)
  | bareMinus
  | badNumber (literal : String)
  | strayToken (kind : TokenKind)
  | badAssignmentTarget
  | missingAssignedValue (operator : TokenKind)
  | doubleAdditive
  | tokensBeforeNot
  | bareNot
  | unpairedCloseParen
  | missingCallee
  | emptyArgument
  | noRule
  deriving DecidableEq, Repr

namespace ParseFault

/-- The class of a fault. -/
def kind : ParseFault → String
  | missingFunctionName | missingParameterList | unclosedParameterList _ | badParameter
  | badParameterSeparator | missingBody _ => "malformed function"
  | emptyProgram => "empty program"
  | bareIf | missingIfAction | bareElse | tokensAfterIf => "malformed if"
  | bareWhile | missingLoopAction | tokensAfterLoop => "malformed while"
  | strayCloseParen | strayCloseBrace | unclosedBrace | unclosedParen | unpairedCloseParen =>
    "unmatched bracket"
  | strayComma | strayFunction | strayElse | strayReturn => "unexpected token"
  | badAssignmentTarget | missingAssignedValue _ => "invalid assignment"
  | doubleAdditive => "double additive operator"
  | missingExpression | emptyParens | missingLeftOperand _ | missingRightOperand _ | bareMinus
  | badNumber _ | strayToken _ | tokensBeforeNot | bareNot | missingCallee | emptyArgument
  | noRule => "malformed expression"

def describe : ParseFault → String
  | missingFunctionName => "Expected identifier after function keyword"
  | missingParameterList => "Expected parentheses after function identifier"
  | unclosedParameterList function => "Unclosed argument list in definition of " ++ function
  | badParameter => "Expected parameter name"
  | badParameterSeparator => "Expected ',' or ')' in parameter list"
  | missingBody function => "Expected a body for function " ++ function
  | emptyProgram => "No code to run after removing function declarations"
  | missingExpression => "Expected an expression"
  | strayCloseParen => "Unmatched ')'"
  | strayComma => "Unexpected ','"
  | strayCloseBrace => "Unmatched '\x7d'"
  | strayFunction => "Unfinished expression before function definition"
  | strayElse => "Unexpected else without if"
  | strayReturn => "Unexpected return inside expression"
  | bareIf => "Expected tokens after if"
  | missingIfAction => "Expected tokens after condition in if expression"
  | bareElse => "Expected tokens after else"
  | tokensAfterIf => "Unexpected tokens after if statement"
  | bareWhile => "Expected tokens after while"
  | missingLoopAction => "Expected tokens after condition in while loop"
  | tokensAfterLoop => "Unexpected tokens after while loop"
  | unclosedBrace => "Unclosed '\x7b'"
  | unclosedParen => "Unclosed '('"
  | emptyParens => "Empty parentheses"
  | missingLeftOperand operator => "Expected expression before " ++ operator.name
  | missingRightOperand operator => "Expected expression after " ++ operator.name
  | bareMinus => "Expected expression after -"
  | badNumber literal => Number.malformed literal
  | strayToken kind => "Unexpected " ++ kind.name
  | badAssignmentTarget => "Only a variable name can be assigned to"
  | missingAssignedValue operator => "No value after " ++ operator.name
  | doubleAdditive => "Two additive operators in a row"
  | tokensBeforeNot => "Unexpected tokens before not"
  | bareNot => "Expected expression after not"
  | unpairedCloseParen => "Can't find pair for closing parenthesis"
  | missingCallee => "Expected a function before argument list"
  | emptyArgument => "Empty argument"
  | noRule => "Could not make sense of expression"

end ParseFault

/-- A fault and the token that shows it. There is none where the input ends too early. -/
structure ParseError where
  fault : ParseFault
  culprit : Option Token
  deriving DecidableEq, Repr

namespace ParseError

def position (e : ParseError) : Position := (e.culprit.map Token.position).getD {}

def got (e : ParseError) : TokenKind := (e.culprit.map Token.kind).getD .endOfInput

def message (e : ParseError) : String :=
  let place :=
    if e.position.isKnown then e.position.text ++ " (got " ++ e.got.name ++ ")" else "end of input"
  "Parse error: " ++ e.fault.describe ++ " at " ++ place

end ParseError

def Token.fault (t : Token) (fault : ParseFault) : ParseError := ⟨fault, some t⟩

end Scriptlet
