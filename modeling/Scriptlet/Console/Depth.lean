import Scriptlet.Token.Reader

/-! Whether a line that has been typed leaves a block open. -/

namespace Scriptlet.Console

/-- The number of open braces behind a line. Braces in strings and comments do not count, and a
string does not go on to the next line. -/
def countBraces (inString escaped : Bool) (depth : Int) : List Char → Int
  | [] => depth
  | c :: rest =>
    if inString then
      if escaped then countBraces true false depth rest
      else if c = '\\' then countBraces true true depth rest
      else countBraces (c != '"') false depth rest
    else match c with
      | '#' => depth
      | '"' => countBraces true false depth rest
      | '{' => countBraces false false (depth + 1) rest
      | '}' => countBraces false false (depth - 1) rest
      | _ => countBraces false false depth rest

/-- The number of open braces behind a line, given the number before it. It never falls below
zero. -/
def openBraces (depth : Int) (line : String) : Nat :=
  (countBraces false false depth line.toList).toNat

def startsWithElse (line : String) : Bool :=
  match tokenize line with
  | .ok (t :: _) => t.kind = .elseWord
  | _ => false

/-- Whether a text closes a brace and holds an `if`, so that an `else` may still follow it. -/
def endsWithIf (text : String) : Bool :=
  match tokenize text with
  | .ok tokens =>
    tokens.getLast?.any (·.kind == .closeBrace) && tokens.any (·.kind == .ifWord)
  | .error _ => false

end Scriptlet.Console
