import Scriptlet.Number.Binary
import Scriptlet.Text.Quoted

/-! The values of the language. A function value names one declaration, so that a function declared
anew is another value even if its text is the same. -/

namespace Scriptlet

/-- A declared function: its name, and the index of its definition. -/
structure FunctionRef where
  name : String
  index : Nat
  deriving DecidableEq, Repr, Inhabited

inductive Value where
  | empty
  | bool (b : Bool)
  | number (n : Number)
  | string (s : String)
  | function (f : FunctionRef)
  | native (name : String)
  deriving DecidableEq, Repr, Inhabited

namespace Value

inductive Kind where
  | empty
  | bool
  | number
  | string
  | function
  | native
  deriving DecidableEq, Repr

def Kind.name : Kind → String
  | empty => "Empty"
  | bool => "Bool"
  | number => "Number"
  | string => "StringLiteral"
  | function => "Function"
  | native => "NativeFunction"

def kind : Value → Kind
  | empty => .empty
  | bool _ => .bool
  | number _ => .number
  | string _ => .string
  | function _ => .function
  | native _ => .native

def boolText (b : Bool) : String := if b then "true" else "false"

/-- The value with its kind, as messages show it. -/
def debug : Value → String
  | empty => "Empty"
  | bool b => "Bool(" ++ boolText b ++ ")"
  | number n => "Number(" ++ n.text ++ ")"
  | string s => "StringLiteral(" ++ Text.quote s ++ ")"
  | function f => "Function(" ++ f.name ++ ")"
  | native name => "NativeFunction(" ++ name ++ ")"

/-- The value as it is printed. -/
def text : Value → String
  | bool b => boolText b
  | number n => n.text
  | string s => s
  | v => v.debug

/-- Values of one kind and content. Numbers compare as rationals. -/
def same : Value → Value → Bool
  | number a, number b => a.same b
  | a, b => a == b

end Value
end Scriptlet
