import Scriptlet.Grammar.Shrink

/-! Reading the tokens of a statement as a program tree. -/

namespace Scriptlet.Grammar

/-- A call of the function behind an operator. -/
def operatorCall (operator : Token) (function : String) (operands : List Node) : Node :=
  .call operator.position (.get operator.position function) operands

/-- Reads pieces from left to right, and then reports what stopped the cutting. -/
def Pieces.build (pieces : Pieces)
    (read : (part : List Token) → part ∈ pieces.pieces → Except ParseError Node) :
    Except ParseError (List Node) := do
  let nodes ← pieces.pieces.attach.mapM fun part => read part.1 part.2
  match pieces.trailing with
  | some e => .error e
  | none => .ok nodes

/-- Puts a tree together, given how its parts are read. -/
def Shape.build (shape : Shape)
    (read : (part : List Token) → part ∈ shape.parts → Except ParseError Node) :
    Except ParseError Node :=
  match shape with
  | leaf node => .ok node
  | group inner => read inner (by simp [parts])
  | block position statements => do
    let nodes ← statements.build fun part member => read part (by simpa [parts] using member)
    return .block position nodes
  | ret position value => do return .ret position (← read value (by simp [parts]))
  | branch position condition action otherwise => do
    let condition ← read condition (by simp [parts])
    let action ← read action (by simp [parts])
    match given : otherwise with
    | none => return .branch position condition action .absent
    | some last => return .branch position condition action (← read last (by simp [parts, given]))
  | loop position condition action => do
    let condition ← read condition (by simp [parts])
    let action ← read action (by simp [parts])
    return .loop position condition action
  | unary operator function operand => do
    return operatorCall operator function [← read operand (by simp [parts])]
  | binary operator function left right => do
    let left ← read left (by simp [parts])
    let right ← read right (by simp [parts])
    return operatorCall operator function [left, right]
  | assign name value => do
    return .set name.position name.lexeme (← read value (by simp [parts]))
  | update name operator function value => do
    let value ← read value (by simp [parts])
    let old := Node.get name.position name.lexeme
    return .set name.position name.lexeme (operatorCall operator function [old, value])
  | call position callee arguments => do
    let callee ← read callee (by simp [parts])
    let nodes ← arguments.build fun part member => read part (by simp [parts, member])
    return .call position callee nodes
  | member dot base name => do return .member dot.position (← read base (by simp [parts])) name

/-- The tree of the tokens of one statement. -/
def parse (tokens : List Token) : Except ParseError Node :=
  match _shaped : shape tokens with
  | .error e => .error e
  | .ok found => found.build fun part _member => parse part
termination_by tokens.length
decreasing_by exact length_lt_of_mem_parts _shaped _member

/-- The trees of all statements of a token list. -/
def parseStatements (tokens : List Token) : Except ParseError (List Node) :=
  (statements tokens).build fun part _ => parse part

end Scriptlet.Grammar
