import Scriptlet.Node.Basic

/-! Outlines of program trees, for listings. -/

namespace Scriptlet

/-- One entry of an outline and the entries below it. An empty text means that there is nothing to
show. -/
inductive Outline where
  | entry (kind role name value place : String) (children : List Outline)
  deriving Inhabited

namespace Node

/-- A known place as text, nothing for an unknown one. -/
def place (p : Position) : String := if p.isKnown then p.text else ""

mutual

/-- The outline of a node that stands in the given role. -/
def outline (role : String) : Node → Outline
  | absent => .entry "nil" role "" "" "" []
  | node@(unknown p) => .entry node.kindName role "" "" (place p) []
  | node@(block p statements) =>
    .entry node.kindName role "" "" (place p) (outlines "" statements)
  | node@(branch p condition action otherwise) =>
    let ending := match otherwise with
      | absent => []
      | last => [outline "else" last]
    .entry node.kindName role "" "" (place p)
      (outline "condition" condition :: outline "action" action :: ending)
  | node@(loop p condition action) =>
    .entry node.kindName role "" "" (place p)
      [outline "condition" condition, outline "action" action]
  | node@(.ret p value) =>
    .entry node.kindName role "" "" (place p) [outline "value" value]
  | node@(set p name value) =>
    .entry node.kindName role name "" (place p) [outline "value" value]
  | node@(get p name) => .entry node.kindName role name "" (place p) []
  | node@(const p value) => .entry node.kindName role "" value.debug (place p) []
  | node@(call p function arguments) =>
    .entry node.kindName role "" "" (place p)
      (outline "function" function :: outlines "argument" arguments)
  | node@(member p base name) =>
    .entry node.kindName role name "" (place p) [outline "base" base]

def outlines (role : String) : List Node → List Outline
  | [] => []
  | node :: nodes => outline role node :: outlines role nodes

end

end Node
end Scriptlet
