import Scriptlet.Grammar.Tree
import Scriptlet.Token.Reader

/-! Programs: function declarations, which may stand anywhere, and the statements that remain when
the declarations are taken out. -/

namespace Scriptlet

/-- The functions of a program in the order of their declarations, and its statements. -/
structure Program where
  functions : List Definition
  position : Position
  statements : List Node
  deriving Repr, Inhabited

/-- The statements as one block. -/
def Program.main (p : Program) : Node := .block p.position p.statements

namespace Grammar

/-- Blames the first of the given tokens, or the end of the input. -/
def faultAt (tokens : List Token) (fault : ParseFault) : ParseError := ⟨fault, tokens.head?⟩

/-- The names of a parameter list behind its opening parenthesis, of which there is at least one, and
what follows the list. -/
def parameters (word : Token) (name : String) :
    List Token → Except ParseError (List String × List Token)
  | [] => .error (word.fault (.unclosedParameterList name))
  | [param] =>
    if param.kind = .ident then .error (word.fault (.unclosedParameterList name))
    else .error (param.fault .badParameter)
  | param :: separator :: rest =>
    if param.kind ≠ .ident then .error (param.fault .badParameter)
    else match separator.kind with
      | .comma =>
        (parameters word name rest).map fun (others, after) => (param.lexeme :: others, after)
      | .closeParen => .ok ([param.lexeme], rest)
      | _ => .error (separator.fault .badParameterSeparator)

def parameterList (word : Token) (name : String) (tokens : List Token) :
    Except ParseError (List String × List Token) :=
  match tokens with
  | [] => parameters word name []
  | first :: rest => if first.kind = .closeParen then .ok ([], rest) else parameters word name tokens

/-- Reads a declaration behind the word `func`. Its body is one statement. -/
def declaration (word : Token) (tokens : List Token) : Except ParseError (Definition × List Token) :=
  match tokens with
  | [] => .error (faultAt [] .missingFunctionName)
  | name :: tokens =>
    if name.kind ≠ .ident then .error (name.fault .missingFunctionName)
    else match tokens with
      | [] => .error (faultAt [] .missingParameterList)
      | paren :: tokens =>
        if paren.kind ≠ .openParen then .error (paren.fault .missingParameterList)
        else do
          let (params, tokens) ← parameterList word name.lexeme tokens
          if tokens.isEmpty then throw (word.fault (.missingBody name.lexeme))
          let length ← segmentLength tokens
          let body ← parse (tokens.take length)
          return (⟨name.lexeme, params, body⟩, tokens.drop length)

/-- Keeps the later one of two declarations of a name. -/
def addDefinition (earlier : Definition) (later : List Definition) : List Definition :=
  if later.any (·.name == earlier.name) then later else earlier :: later

/-- Takes all declarations out of a token list, the last one first, so that a body holds no
declaration when it is read. -/
def hoist : List Token → Except ParseError (List Definition × List Token)
  | [] => .ok ([], [])
  | t :: rest => do
    let (functions, rest) ← hoist rest
    if t.kind = .funcWord then
      let (definition, rest) ← declaration t rest
      return (addDefinition definition functions, rest)
    else return (functions, t :: rest)

/-- Reads a piece of a program. It may consist of declarations only. -/
def parseFragment (tokens : List Token) : Except ParseError Program := do
  let (functions, rest) ← hoist tokens
  match rest with
  | [] => return ⟨functions, {}, []⟩
  | first :: _ => return ⟨functions, first.position, ← parseStatements rest⟩

/-- Reads a program, which must have something to run. -/
def parseProgram (tokens : List Token) : Except ParseError Program := do
  let (functions, rest) ← hoist tokens
  match rest with
  | [] => throw ⟨.emptyProgram, none⟩
  | first :: _ => return ⟨functions, first.position, ← parseStatements rest⟩

end Grammar

/-- What keeps a source text from being a program. -/
inductive SourceError where
  | lexical (e : LexicalError)
  | parse (e : ParseError)
  deriving DecidableEq, Repr

def SourceError.message : SourceError → String
  | lexical e => e.message
  | parse e => e.message

/-- Reads a source text with the given reading of its tokens. -/
def readSource (read : List Token → Except ParseError Program) (source : String) :
    Except SourceError Program :=
  match tokenize source with
  | .error e => .error (.lexical e)
  | .ok tokens => (read tokens).mapError .parse

namespace Program

def ofSource (source : String) : Except SourceError Program :=
  readSource Grammar.parseProgram source

def ofFragment (source : String) : Except SourceError Program :=
  readSource Grammar.parseFragment source

end Program
end Scriptlet
