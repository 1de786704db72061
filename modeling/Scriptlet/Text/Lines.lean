/-! The lines of a source text. A line feed, a carriage return and the pair of both each end a
line. -/

namespace Scriptlet.Text

/-- The first line and the lines after it. -/
def splitLines : List Char → List Char × List (List Char)
  | [] => ([], [])
  | '\r' :: '\n' :: rest
  | '\r' :: rest
  | '\n' :: rest =>
    let (line, others) := splitLines rest
    ([], line :: others)
  | c :: rest =>
    let (line, others) := splitLines rest
    (c :: line, others)

/-- The lines of a text. An empty text has none, and a final line end is followed by an empty
line. -/
def lines (text : String) : List String :=
  match text.toList with
  | [] => []
  | chars =>
    let (line, others) := splitLines chars
    (line :: others).map String.ofList

end Scriptlet.Text
