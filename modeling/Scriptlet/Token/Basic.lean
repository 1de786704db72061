import Scriptlet.Position
import Scriptlet.Text.Quoted

/-! Tokens: the words, literals, operators and brackets of a source text. -/

namespace Scriptlet

/-- The kinds of tokens. A token list that was not read from a text may hold foreign kinds. -/
inductive TokenKind where
  | endOfInput
  | ident
  | number
  | string
  | ifWord
  | elseWord
  | whileWord
  | funcWord
  | returnWord
  | trueWord
  | falseWord
  | andWord
  | orWord
  | notWord
  | assign
  | plusAssign
  | minusAssign
  | starAssign
  | slashAssign
  | plus
  | minus
  | star
  | slash
  | equal
  | notEqual
  | less
  | greater
  | lessEqual
  | greaterEqual
  | openParen
  | closeParen
  | openBrace
  | closeBrace
  | comma
  | dot
  | foreign (name : String)
  deriving DecidableEq, Repr, Inhabited

namespace TokenKind

def name : TokenKind → String
  | endOfInput => "EOF"
  | ident => "IDENT"
  | number => "NUMBER"
  | string => "STRING"
  | ifWord => "IF"
  | elseWord => "ELSE"
  | whileWord => "WHILE"
  | funcWord => "FUNC"
  | returnWord => "RETURN"
  | trueWord => "TRUE"
  | falseWord => "FALSE"
  | andWord => "AND"
  | orWord => "OR"
  | notWord => "NOT"
  | assign => "ASSIGN"
  | plusAssign => "PLUS_ASSIGN"
  | minusAssign => "MINUS_ASSIGN"
  | starAssign => "STAR_ASSIGN"
  | slashAssign => "SLASH_ASSIGN"
  | plus => "PLUS"
  | minus => "MINUS"
  | star => "STAR"
  | slash => "SLASH"
  | equal => "EQ"
  | notEqual => "NEQ"
  | less => "LT"
  | greater => "GT"
  | lessEqual => "LTE"
  | greaterEqual => "GTE"
  | openParen => "LPAREN"
  | closeParen => "RPAREN"
  | openBrace => "LBRACE"
  | closeBrace => "RBRACE"
  | comma => "COMMA"
  | dot => "DOT"
  | foreign name => name

/-- Reserved words have kinds of their own, and case matters. -/
def ofWord (word : String) : TokenKind :=
  match word with
  | "if" => ifWord
  | "else" => elseWord
  | "while" => whileWord
  | "and" => andWord
  | "or" => orWord
  | "not" => notWord
  | "true" => trueWord
  | "false" => falseWord
  | "func" => funcWord
  | "return" => returnWord
  | _ => ident

end TokenKind

/-- A token, its text and the place of its first character. -/
structure Token where
  kind : TokenKind
  lexeme : String
  position : Position
  deriving DecidableEq, Repr, Inhabited

/-- The token as a listing shows it. -/
def Token.text (t : Token) : String :=
  let content := match t.kind with
    | .string => "(" ++ Text.quote t.lexeme ++ ")"
    | .ident | .number => "(" ++ t.lexeme ++ ")"
    | _ => ""
  t.kind.name ++ content ++ " @ " ++ t.position.text

end Scriptlet
