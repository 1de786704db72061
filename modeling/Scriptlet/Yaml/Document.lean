import Scriptlet.Yaml.Scalar

/-! YAML documents in block style. -/

namespace Scriptlet

/-- A document, or a part of one. -/
inductive Yaml where
  | text (content : String)
  | number (value : Int)
  /-- A list of texts on one line. -/
  | flow (items : List String)
  | list (items : List Yaml)
  | mapping (entries : List (String × Yaml))
  deriving Inhabited

namespace Yaml

def spaces (n : Nat) : String := String.ofList (List.replicate n ' ')

mutual

/-- A value behind its key or dash, at a place where nested lines have the given indent. -/
def write (indent : Nat) : Yaml → String
  | text content => " " ++ scalar indent content ++ lineEnd content
  | number value => " " ++ toString value ++ "\n"
  | flow items => " [" ++ ", ".intercalate (items.map (scalar indent)) ++ "]\n"
  | list [] => " []\n"
  | mapping [] => " \x7b\x7d\n"
  | list (item :: items) => "\n" ++ writeItems indent (item :: items)
  | mapping (entry :: entries) => "\n" ++ writeEntries indent true (entry :: entries)

/-- Items of a list whose dashes have the given indent. The first key of a mapping stands behind the
dash. -/
def writeItems (indent : Nat) : List Yaml → String
  | [] => ""
  | item :: items =>
    let first := match item with
      | mapping (entry :: entries) => " " ++ writeEntries (indent + 2) false (entry :: entries)
      | other => write (indent + 2) other
    spaces indent ++ "-" ++ first ++ writeItems indent items

/-- Entries of a mapping with the given indent. The first one may stand on a line already begun. -/
def writeEntries (indent : Nat) (fresh : Bool) : List (String × Yaml) → String
  | [] => ""
  | (key, value) :: entries =>
    (if fresh then spaces indent else "") ++ key ++ ":" ++ write (indent + 2) value ++
      writeEntries indent true entries

end

/-- A whole document. -/
def render : Yaml → String
  | list [] => "[]\n"
  | list items => writeItems 0 items
  | mapping entries => writeEntries 0 true entries
  | text content => scalar 0 content ++ lineEnd content
  | number value => toString value ++ "\n"
  | flow items => "[" ++ ", ".intercalate (items.map (scalar 0)) ++ "]\n"

end Yaml
end Scriptlet
