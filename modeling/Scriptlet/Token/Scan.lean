import Scriptlet.Number.Decimal
import Scriptlet.Token.Basic
import Scriptlet.Token.Fault

/-! Reading one token from the front of a text. Each scan reports the characters it passed and the
characters that remain, which together are the text it was given; places are worked out from the
passed characters afterwards. -/

namespace Scriptlet.Scan

def isLetter (c : Char) : Bool := ('a' ≤ c && c ≤ 'z') || ('A' ≤ c && c ≤ 'Z')

def startsWord (c : Char) : Bool := isLetter c || c == '_'

def continuesWord (c : Char) : Bool := startsWord c || Number.isDigit c

def isHexDigit (c : Char) : Bool :=
  Number.isDigit c || ('a' ≤ c && c ≤ 'f') || ('A' ≤ c && c ≤ 'F')

def isSpace (c : Char) : Bool := c == ' ' || c == '\t' || c == '\r' || c == '\n'

/-- White space and comments in front of a token, and what follows them. A comment runs to the end
of its line. -/
def blanks (inComment : Bool) : List Char → List Char × List Char
  | [] => ([], [])
  | c :: rest =>
    if inComment then
      let (passed, remaining) := blanks (c != '\n') rest
      (c :: passed, remaining)
    else if isSpace c then
      let (passed, remaining) := blanks false rest
      (c :: passed, remaining)
    else if c = '#' then
      let (passed, remaining) := blanks true rest
      (c :: passed, remaining)
    else ([], c :: rest)

/-- What one scan found. A fault lies behind some of the characters passed. -/
inductive Found where
  | token (kind : TokenKind) (lexeme : List Char)
  | fault (before : List Char) (fault : LexicalFault)

structure Result where
  passed : List Char
  found : Found
  rest : List Char

def word (text : List Char) : Result :=
  let name := text.takeWhile continuesWord
  ⟨name, .token (.ofWord (String.ofList name)) name, text.dropWhile continuesWord⟩

/-- The characters of a number, what is wrong with it, and what follows it. -/
def digits (pointSeen : Bool) : List Char → List Char × Option LexicalFault × List Char
  | [] => ([], none, [])
  | c :: rest =>
    if Number.isDigit c || c == '_' then
      let (passed, fault, remaining) := digits pointSeen rest
      (c :: passed, fault, remaining)
    else if c = '.' then
      if pointSeen then ([], some .secondPoint, c :: rest)
      else
        let (passed, fault, remaining) := digits true rest
        (c :: passed, fault, remaining)
    else if isLetter c then ([], some (.letterInNumber c), c :: rest)
    else ([], none, c :: rest)

def number (text : List Char) : Result :=
  match digits false text with
  | (passed, none, rest) => ⟨passed, .token .number (Number.canonicalChars passed), rest⟩
  | (passed, some fault, rest) => ⟨passed, .fault [] fault, rest⟩

def hexValue (digits : List Char) : Nat :=
  digits.foldl (fun n c =>
    16 * n + if Number.isDigit c then c.toNat - '0'.toNat else c.toUpper.toNat - 'A'.toNat + 10) 0

/-- The character with the given code, unless the code is that of a surrogate or too large. -/
def codePoint? (n : Nat) : Option Char :=
  if h : n.isValidChar then some (Char.ofNatAux n h) else none

/-- How the text of a string literal ends. A fault lies behind some of the characters passed. -/
inductive Ending where
  | closed
  | unclosed
  | fault (before : List Char) (fault : LexicalFault)

/-- A string literal behind its opening quote: the characters passed, the text they denote, and what
follows. -/
structure Body where
  passed : List Char
  content : List Char
  ending : Ending
  rest : List Char

/-- Puts passed characters and what they denote in front of a string's text. -/
def Body.push (passed content : List Char) (body : Body) : Body where
  passed := passed ++ body.passed
  content := content ++ body.content
  ending := match body.ending with
    | .fault before fault => .fault (passed ++ before) fault
    | other => other
  rest := body.rest

/-- What an escape of one character denotes. An escaped line end denotes nothing. -/
def escape? : Char → Option (List Char)
  | '\\' => some ['\\']
  | 'n' => some ['\n']
  | '\'' => some ['\'']
  | '"' => some ['"']
  | '\n' => some []
  | _ => none

theorem length_dropWhile_le (p : Char → Bool) (text : List Char) :
    (text.dropWhile p).length ≤ text.length :=
  (List.dropWhile_sublist p).length_le

def string : List Char → Body
  | [] => ⟨[], [], .unclosed, []⟩
  | c :: rest =>
    if c = '"' then ⟨[c], [], .closed, rest⟩
    else if c ≠ '\\' then (string rest).push [c] [c]
    else match rest with
      | [] => ⟨[c], [], .fault [] .escapeAtEnd, []⟩
      | e :: rest =>
        match escape? e with
        | some content => (string rest).push [c, e] content
        | none =>
          if e ≠ 'U' then ⟨[c, e], [], .fault [] (.unknownEscape e), rest⟩
          else match rest with
            | '+' :: text =>
              let digits := text.takeWhile isHexDigit
              if digits.isEmpty then ⟨[c, e, '+'], [], .fault [] .missingHexDigits, text⟩
              else match codePoint? (hexValue digits) with
                | some point =>
                  (string (text.dropWhile isHexDigit)).push (c :: e :: '+' :: digits) [point]
                | none =>
                  let shown := String.ofList (digits.map Char.toUpper)
                  ⟨c :: e :: '+' :: digits, [], .fault [] (.invalidCodePoint shown),
                    text.dropWhile isHexDigit⟩
            | _ => ⟨[c, e], [], .fault [] .missingPlus, rest⟩
termination_by text => text.length
decreasing_by all_goals grind [length_dropWhile_le]

def stringLiteral (quote : Char) (text : List Char) : Result :=
  let body := string text
  let found : Found := match body.ending with
    | .closed => .token .string body.content
    | .unclosed => .fault [] .unclosedString
    | .fault before fault => .fault (quote :: before) fault
  ⟨quote :: body.passed, found, body.rest⟩

/-- An operator, a bracket or a separator. Some operators take an equals sign behind them. -/
def symbol (c : Char) (rest : List Char) : Result :=
  let single (kind : TokenKind) : Result := ⟨[c], .token kind [c], rest⟩
  let paired (plain withEquals : TokenKind) : Result := match rest with
    | '=' :: more => ⟨[c, '='], .token withEquals [c, '='], more⟩
    | _ => single plain
  let unknown : Result := ⟨[c], .fault [] (.unknownCharacter c), rest⟩
  match c with
  | '+' => paired .plus .plusAssign
  | '-' => paired .minus .minusAssign
  | '*' => paired .star .starAssign
  | '/' => paired .slash .slashAssign
  | '=' => paired .assign .equal
  | '<' => paired .less .lessEqual
  | '>' => paired .greater .greaterEqual
  | '!' => match rest with
    | '=' :: more => ⟨[c, '='], .token .notEqual [c, '='], more⟩
    | _ => unknown
  | '(' => single .openParen
  | ')' => single .closeParen
  | '{' => single .openBrace
  | '}' => single .closeBrace
  | ',' => single .comma
  | '.' => single .dot
  | _ => unknown

/-- The token at the front of a text that starts with neither white space nor a comment. -/
def one (c : Char) (rest : List Char) : Result :=
  if startsWord c then word (c :: rest)
  else if Number.isDigit c then number (c :: rest)
  else if c = '"' then stringLiteral c rest
  else symbol c rest

theorem blanks_passed_append_rest (inComment : Bool) (text : List Char) :
    (blanks inComment text).1 ++ (blanks inComment text).2 = text := by
  induction text generalizing inComment with
  | nil => rfl
  | cons c rest ih =>
    simp only [blanks]
    split
    · simp [ih]
    · split
      · simp [ih]
      · split <;> simp [ih]

theorem digits_passed_append_rest (pointSeen : Bool) (text : List Char) :
    (digits pointSeen text).1 ++ (digits pointSeen text).2.2 = text := by
  induction text generalizing pointSeen with
  | nil => rfl
  | cons c rest ih =>
    simp only [digits]
    repeat' split
    all_goals simp [ih]

theorem push_passed_append_rest (body : Body) (passed content : List Char) :
    (body.push passed content).passed ++ (body.push passed content).rest = passed ++ (body.passed ++ body.rest) :=
  List.append_assoc ..

theorem string_passed_append_rest (text : List Char) :
    (string text).passed ++ (string text).rest = text := by
  match text with
  | [] =>
    rw [string]
    rfl
  | c :: rest =>
    rw [string.eq_def]
    dsimp only
    split
    · rfl
    · split
      · rw [push_passed_append_rest, string_passed_append_rest rest]
        rfl
      · split
        · rfl
        next e rest =>
          split
          · rw [push_passed_append_rest, string_passed_append_rest rest]
            rfl
          · split
            · rfl
            · split
              next text =>
                split
                · rfl
                · split
                  · rw [push_passed_append_rest, string_passed_append_rest (text.dropWhile isHexDigit)]
                    simp only [List.cons_append, List.takeWhile_append_dropWhile]
                  · simp only [List.cons_append, List.takeWhile_append_dropWhile]
              · rfl
termination_by text.length
decreasing_by all_goals grind [length_dropWhile_le]

theorem symbol_passed_append_rest (c : Char) (rest : List Char) :
    (symbol c rest).passed ++ (symbol c rest).rest = c :: rest := by
  simp only [symbol]
  repeat' split
  all_goals simp

/-- A scan loses nothing. -/
theorem one_passed_append_rest (c : Char) (rest : List Char) :
    (one c rest).passed ++ (one c rest).rest = c :: rest := by
  simp only [one]
  split
  · exact List.takeWhile_append_dropWhile
  · split
    · have whole := digits_passed_append_rest false (c :: rest)
      simp only [number]
      split <;> next found => simpa [found] using whole
    · split
      · simpa [stringLiteral] using string_passed_append_rest rest
      · exact symbol_passed_append_rest c rest

theorem symbol_passed_ne_nil (c : Char) (rest : List Char) : (symbol c rest).passed ≠ [] := by
  simp only [symbol]
  repeat' split
  all_goals simp

/-- A scan passes at least one character. -/
theorem one_passed_ne_nil (c : Char) (rest : List Char) : (one c rest).passed ≠ [] := by
  simp only [one]
  split
  next starts =>
    simp [word, continuesWord, starts]
  · split
    next digit =>
      simp only [number, digits, digit, Bool.true_or, ↓reduceIte]
      split
      all_goals
        next found =>
          injection found with passed
          simp [← passed]
    · split
      · simp [stringLiteral]
      · exact symbol_passed_ne_nil c rest

theorem length_one_rest_lt (c : Char) (rest : List Char) :
    (one c rest).rest.length < (c :: rest).length := by
  have whole := congrArg List.length (one_passed_append_rest c rest)
  have some := List.length_pos_iff.mpr (one_passed_ne_nil c rest)
  simp only [List.length_append] at whole
  omega

end Scriptlet.Scan
