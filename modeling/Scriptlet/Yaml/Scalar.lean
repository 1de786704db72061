import Scriptlet.Yaml.Resolve
import Scriptlet.Text.Quoted

/-! Text as a YAML scalar. A text is written plainly if it then reads back as itself; otherwise it is
quoted, or laid out line by line. -/

namespace Scriptlet.Yaml

/-- The characters that end a line. -/
def isBreak (c : Char) : Bool :=
  c == '\n' || c == '\r' || c == '\x85' || c == '\u2028' || c == '\u2029'

/-- The characters that may stand in a document as themselves. -/
def isPrintable (c : Char) : Bool :=
  let n := c.toNat
  n == 0x0A || (0x20 ≤ n && n ≤ 0x7E) || (0xA0 ≤ n && n ≤ 0xFFFD && n != 0xFEFF)

/-- What stands in the way of the several ways to write a text. -/
structure Traits where
  /-- It holds an indicator that ends or changes a plain text. -/
  indicators : Bool
  breaks : Bool
  /-- It holds a character that only an escape can write. -/
  special : Bool
  tabs : Bool
  /-- A blank or a line break is at its start or end. -/
  looseEnds : Bool
  trailingSpace : Bool
  spaceThenBreak : Bool
  breakThenSpace : Bool

def isTabOrSpace (c : Char) : Bool := c == ' ' || c == '\t'

/-- A blank or the end of the text follows. -/
def blankFollows (rest : List Char) : Bool := rest.head?.all isTabOrSpace

/-- Indicators behind the first character: a colon before a blank, a hash after one. -/
def innerIndicator (previous : Char) : List Char → Bool
  | [] => false
  | c :: rest =>
    (c == ':' && blankFollows rest) || (c == '#' && (isTabOrSpace previous || isBreak previous)) ||
      innerIndicator c rest

def startIndicator : List Char → Bool
  | [] => false
  | c :: rest =>
    "#,[]\x7b\x7d&*!|>'\"%@`".toList.contains c ||
      ((c == '?' || c == ':' || c == '-') && blankFollows rest)

/-- Whether two neighbouring characters are of the given classes. -/
def hasPair (first second : Char → Bool) : List Char → Bool
  | a :: b :: rest => (first a && second b) || hasPair first second (b :: rest)
  | _ => false

def traits (chars : List Char) : Traits where
  indicators :=
    startIndicator chars || (match chars with
      | [] => false
      | c :: rest => innerIndicator c rest) ||
    chars.take 3 == ['-', '-', '-'] || chars.take 3 == ['.', '.', '.']
  breaks := chars.any isBreak
  special := chars.any fun c => !isPrintable c && c != '\t'
  tabs := chars.contains '\t'
  looseEnds :=
    let loose (c : Char) : Bool := c == ' ' || isBreak c
    chars.head?.any loose || chars.getLast?.any loose
  trailingSpace := chars.getLast? == some ' '
  spaceThenBreak := hasPair (· == ' ') isBreak chars
  breakThenSpace := hasPair isBreak (· == ' ') chars

def Traits.allowsPlain (t : Traits) : Bool :=
  !(t.indicators || t.breaks || t.special || t.tabs || t.looseEnds || t.spaceThenBreak ||
    t.breakThenSpace)

def Traits.allowsSingle (t : Traits) : Bool :=
  !(t.special || t.tabs || t.spaceThenBreak || t.breakThenSpace)

def Traits.allowsLiteral (t : Traits) : Bool :=
  !(t.trailingSpace || t.spaceThenBreak || t.special)

/-- An escape in double quotes. -/
def escapeCode (c : Char) : List Char :=
  let upper (width : Nat) : List Char := (Text.hex width c.toNat).map Char.toUpper
  match c.toNat with
  | 0x00 => ['\\', '0']
  | 0x07 => ['\\', 'a']
  | 0x08 => ['\\', 'b']
  | 0x09 => ['\\', 't']
  | 0x0A => ['\\', 'n']
  | 0x0B => ['\\', 'v']
  | 0x0C => ['\\', 'f']
  | 0x0D => ['\\', 'r']
  | 0x1B => ['\\', 'e']
  | 0x22 => ['\\', '"']
  | 0x5C => ['\\', '\\']
  | 0x85 => ['\\', 'N']
  | 0xA0 => ['\\', '_']
  | 0x2028 => ['\\', 'L']
  | 0x2029 => ['\\', 'P']
  | n =>
    if n ≤ 0xFF then '\\' :: 'x' :: upper 2
    else if n ≤ 0xFFFF then '\\' :: 'u' :: upper 4
    else '\\' :: 'U' :: upper 8

/-- A text in double quotes. Behind a byte order mark at its start, no character is left as it is. -/
def doubleQuoted (chars : List Char) : List Char :=
  let marked := chars.head? == some '\uFEFF'
  let write (c : Char) : List Char :=
    if marked || !isPrintable c || isBreak c || c == '"' || c == '\\' then escapeCode c else [c]
  '"' :: chars.flatMap write ++ ['"']

/-- Characters with an indent in front of each one that follows a line break. -/
def indented (indent : Nat) (afterBreak : Bool) : List Char → List Char
  | [] => []
  | c :: rest =>
    if isBreak c then c :: indented indent true rest
    else if afterBreak then List.replicate indent ' ' ++ c :: indented indent false rest
    else c :: indented indent false rest

def singleQuoted (indent : Nat) (chars : List Char) : List Char :=
  '\'' :: (indented indent false chars).flatMap (fun c => if c = '\'' then [c, c] else [c]) ++ ['\'']

/-- A text line by line. The header says how its last line ends, and the indent if that cannot be
seen from the first line. A break at the start of the text is the one that ends the header. -/
def literal (indent : Nat) (chars : List Char) : List Char :=
  let hint := if chars.head?.any (fun c => c == ' ' || isBreak c) then ['2'] else []
  let headerEnd := if chars.head?.any isBreak then [] else ['\n']
  let chomp := match chars.reverse with
    | [] => ['-']
    | c :: before =>
      if !isBreak c then ['-']
      else if before.head?.all isBreak then ['+']
      else []
  let body := indented indent true chars
  let body := if chars.getLast? == some '\n' then body.dropLast else body
  '|' :: hint ++ chomp ++ headerEnd ++ body

/-- The ways to write a text. -/
inductive Style where
  | plain
  | single
  | double
  | literal
  deriving DecidableEq, Repr

/-- A text of several lines is laid out line by line, a plain text that reads as something else is in
double quotes, and any other that cannot be plain is in single quotes. Double quotes can hold
everything. -/
def style (text : String) : Style :=
  let found := traits text.toList
  if text.toList.contains '\n' then if found.allowsLiteral then .literal else .double
  else if readsOtherwise text then .double
  else if found.allowsPlain then .plain
  else if found.allowsSingle then .single
  else .double

/-- A text as the value of a key, whose further lines have the given indent. -/
def scalar (indent : Nat) (text : String) : String :=
  let chars := text.toList
  String.ofList <| match style text with
    | .plain => chars
    | .single => singleQuoted indent chars
    | .double => doubleQuoted chars
    | .literal => literal indent chars

/-- The end of the line behind a text. A text laid out line by line that ends in a line break of
another kind needs no other. -/
def lineEnd (text : String) : String :=
  let endsItself := text.toList.getLast?.any fun c => isBreak c && c != '\n'
  if style text = .literal && endsItself then "" else "\n"

end Scriptlet.Yaml
