import Scriptlet.Position
import Scriptlet.Value

/-! Program trees. Operators have no nodes of their own: they are calls of built-in functions. -/

namespace Scriptlet

/-- A part of a program and the place where it starts. -/
inductive Node where
  /-- No part at all, as where an `if` has no `else`. -/
  | absent
  /-- A part without a meaning. -/
  | unknown (position : Position)
  | block (position : Position) (statements : List Node)
  | branch (position : Position) (condition action otherwise : Node)
  | loop (position : Position) (condition action : Node)
  | ret (position : Position) (value : Node)
  | set (position : Position) (name : String) (value : Node)
  | get (position : Position) (name : String)
  | const (position : Position) (value : Value)
  | call (position : Position) (function : Node) (arguments : List Node)
  | member (position : Position) (base : Node) (name : String)
  deriving Repr, Inhabited

namespace Node

def position : Node → Position
  | absent => {}
  | unknown p | block p _ | branch p _ _ _ | loop p _ _ | .ret p _ | set p _ _ | get p _
  | const p _ | call p _ _ | member p _ _ => p

def isAbsent : Node → Bool
  | absent => true
  | _ => false

def kindName : Node → String
  | absent => "nil"
  | unknown _ => "Strange"
  | block .. => "CodeBlock"
  | branch .. => "IfStatement"
  | loop .. => "WhileStatement"
  | .ret .. => "ReturnFromFunction"
  | set .. => "SetVariable"
  | get .. => "GetVariable"
  | const .. => "GetConstant"
  | call .. => "CallFunction"
  | member .. => "GetMember"

end Node

/-- A function declaration. -/
structure Definition where
  name : String
  params : List String
  body : Node
  deriving Repr, Inhabited

/-- The head of a declaration. -/
def Definition.signature (d : Definition) : String :=
  "func " ++ d.name ++ "(" ++ ", ".intercalate d.params ++ ")"

end Scriptlet
