import Scriptlet.Node.Basic

/-! The text of a program tree, with every bracket written out. A tree that lacks a statement or an argument
has no text. -/

namespace Scriptlet.Node

/-- A constant inside a tree's text. -/
def constText : Value → String
  | .string s => Text.quote s
  | .empty => "empty"
  | v => v.text

/-- A part inside the text of a whole, from its own text. It is marked where it is absent or has none. -/
def partText (part : Node) (text : Option String) : String :=
  if part.isAbsent then "%!s(<nil>)"
  else text.getD "%!s(PANIC=String method: runtime error: invalid memory address or nil pointer dereference)"

mutual

def text : Node → Option String
  | absent => none
  | unknown _ => some "Strange"
  | block _ statements => (texts statements).map fun parts => "Block[" ++ "; ".intercalate parts ++ "]"
  | branch _ condition action otherwise =>
    let ending := if otherwise.isAbsent then "" else ", else " ++ partText otherwise (text otherwise)
    some ("If(" ++ partText condition (text condition) ++ ", " ++ partText action (text action) ++ ending ++ ")")
  | loop _ condition action =>
    some ("While(" ++ partText condition (text condition) ++ ", " ++ partText action (text action) ++ ")")
  | .ret _ value => some ("Return(" ++ partText value (text value) ++ ")")
  | set _ name value => some ("Set(" ++ name ++ ", " ++ partText value (text value) ++ ")")
  | get _ name => some ("Get(" ++ name ++ ")")
  | const _ value => some ("Const(" ++ constText value ++ ")")
  | call _ function arguments => (texts arguments).map fun parts =>
    "Call(" ++ partText function (text function) ++ ", [" ++ ", ".intercalate parts ++ "])"
  | member _ base name => some ("Member(" ++ partText base (text base) ++ ", " ++ name ++ ")")

/-- The texts of all nodes, if each of them has one. -/
def texts : List Node → Option (List String)
  | [] => some []
  | node :: nodes => (text node).bind fun first => (texts nodes).map (first :: ·)

end

end Scriptlet.Node
