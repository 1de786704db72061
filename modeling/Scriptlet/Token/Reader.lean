import Scriptlet.Token.Scan

/-! Reading a source text token by token, and all at once. A reader goes on after an error from
wherever the faulty token was given up. -/

namespace Scriptlet

/-- The part of a text that is still to be read, and the place where it starts. -/
structure Reader where
  rest : List Char
  position : Position
  deriving DecidableEq

namespace Reader

def ofText (source : String) : Reader := ⟨source.toList, .start⟩

/-- The reader behind the white space and comments at its front. -/
def skipBlanks (r : Reader) : Reader :=
  let (passed, rest) := Scan.blanks false r.rest
  ⟨rest, r.position.after passed⟩

/-- The next token, or the error in its place. At the end of the text this is the end of input, again
and again. -/
def next (r : Reader) : Except LexicalError Token × Reader :=
  let r := r.skipBlanks
  match r.rest with
  | [] => (.ok ⟨.endOfInput, "", r.position⟩, r)
  | c :: text =>
    let scan := Scan.one c text
    let outcome := match scan.found with
      | .token kind lexeme => .ok ⟨kind, String.ofList lexeme, r.position⟩
      | .fault before fault => .error ⟨fault, r.position.after before⟩
    (outcome, ⟨scan.rest, r.position.after scan.passed⟩)

theorem skipBlanks_rest_length_le (r : Reader) : r.skipBlanks.rest.length ≤ r.rest.length := by
  have whole := congrArg List.length (Scan.blanks_passed_append_rest false r.rest)
  simp only [List.length_append] at whole
  simp only [skipBlanks]
  omega

/-- Every token but the end of input takes something from the text. -/
theorem next_rest_length_lt (r : Reader) {token : Token} (read : r.next.1 = .ok token)
    (inside : token.kind ≠ .endOfInput) : r.next.2.rest.length < r.rest.length := by
  have shorter := r.skipBlanks_rest_length_le
  revert read
  simp only [next]
  split
  · intro read
    cases read
    exact absurd rfl inside
  next c text found =>
    intro _
    have less := Scan.length_one_rest_lt c text
    rw [found] at shorter
    exact Nat.lt_of_lt_of_le less shorter

/-- All tokens up to the end of input, which is not among them. -/
def tokens (r : Reader) : Except LexicalError (List Token) :=
  match _read : r.next.1 with
  | .error e => .error e
  | .ok token =>
    if _inside : token.kind = .endOfInput then .ok []
    else (tokens r.next.2).map (token :: ·)
termination_by r.rest.length
decreasing_by exact r.next_rest_length_lt _read _inside

end Reader

/-- The tokens of a source text. -/
def tokenize (source : String) : Except LexicalError (List Token) :=
  (Reader.ofText source).tokens

end Scriptlet
