import Scriptlet.Grammar.Program
import Scriptlet.Node.Outline
import Scriptlet.Yaml.Document

/-! Listings of tokens and programs. -/

namespace Scriptlet.Command

/-- An entry whose text is left out if it is empty. -/
def textEntry (key text : String) : List (String × Yaml) :=
  if text.isEmpty then [] else [(key, .text text)]

def tokenListing (tokens : List Token) : Yaml :=
  .list <| tokens.map fun t => .mapping <|
    [("type", .text t.kind.name)] ++ textEntry "lexeme" t.lexeme ++
      [("line", .number t.position.line), ("col", .number t.position.col)]

mutual

def outlineListing : Outline → Yaml
  | .entry kind role name value place children =>
    let below := match children with
      | [] => []
      | child :: rest => [("children", .list (outlineListings (child :: rest)))]
    .mapping <| [("kind", .text kind)] ++ textEntry "role" role ++ textEntry "name" name ++
      textEntry "value" value ++ textEntry "at" place ++ below

def outlineListings : List Outline → List Yaml
  | [] => []
  | child :: rest => outlineListing child :: outlineListings rest

end

def definitionListing (d : Definition) : Yaml :=
  .mapping [("name", .text d.name), ("params", .flow d.params),
    ("body", outlineListing (d.body.outline ""))]

def programListing (p : Program) : Yaml :=
  let functions :=
    if p.functions.isEmpty then [] else [("functions", .list (p.functions.map definitionListing))]
  .mapping (functions ++ [("main", outlineListing (p.main.outline ""))])

end Scriptlet.Command
