import Scriptlet.Grammar.Segment

/-! Cutting token lists: at an operator outside all brackets, into statements, and into the
arguments of a call. -/

namespace Scriptlet.Grammar

/-- A token list around one of its tokens. -/
structure Split where
  before : List Token
  operator : Token
  after : List Token

def Split.push (tokens : List Token) (split : Split) : Split :=
  { split with before := tokens ++ split.before }

/-- The length of the `if` or `while` at the front, if there is a complete one. -/
def constructLength? (t : Token) (rest : List Token) : Option Nat :=
  match t.kind with
  | .ifWord => (branchLengths t rest).toOption.map BranchLengths.total
  | .whileWord => (loopLengths t rest).toOption.map LoopLengths.total
  | _ => none

/-- The length of an `if` or `while` that is passed whole: one outside all brackets and not at the
very front. -/
def passLength? (outside : Bool) (previous : Option Token) (t : Token) (rest : List Token) :
    Option Nat :=
  if outside && previous.isSome then constructLength? t rest else none

/-- By how much a token changes the number of open brackets of one kind. -/
def bracketStep (opening closing kind : TokenKind) : Int :=
  if kind = opening then 1 else if kind = closing then -1 else 0

/-- Splits at the first wanted token outside all brackets. A complete `if` or `while` that is not at
the very front is passed whole. Whether a token is wanted may hang on the one before it. -/
def splitOutside? (wanted : Option Token → Token → Bool) (previous : Option Token)
    (parens braces : Int) (tokens : List Token) : Option Split :=
  match tokens with
  | [] => none
  | t :: rest =>
    let outside := parens ≤ 0 && braces ≤ 0
    if outside && wanted previous t then some ⟨[], t, rest⟩
    else match passLength? outside previous t rest with
      | some n =>
        (splitOutside? wanted (t :: rest)[n - 1]? parens braces (rest.drop (n - 1))).map
          (·.push (t :: rest.take (n - 1)))
      | none =>
        (splitOutside? wanted (some t) (parens + bracketStep .openParen .closeParen t.kind)
          (braces + bracketStep .openBrace .closeBrace t.kind) rest).map (·.push [t])
termination_by tokens.length
decreasing_by all_goals grind

/-- Splits at the first token of one of the given kinds outside all brackets. -/
def splitAt? (kinds : List TokenKind) (tokens : List Token) : Option Split :=
  splitOutside? (fun _ t => kinds.contains t.kind) none 0 0 tokens

theorem length_of_splitOutside? {wanted : Option Token → Token → Bool} {previous : Option Token}
    {parens braces : Int} {tokens : List Token} {split : Split}
    (found : splitOutside? wanted previous parens braces tokens = some split) :
    split.before.length + 1 + split.after.length = tokens.length := by
  fun_induction splitOutside? wanted previous parens braces tokens generalizing split with
  | case1 => cases found
  | case2 => cases found; simp; omega
  | case3 =>
    rename_i ih
    obtain ⟨inner, there, rfl⟩ := Option.map_eq_some_iff.mp found
    have lengths := ih there
    simp only [List.length_drop, Split.push, List.length_append, List.length_cons,
      List.length_take] at lengths ⊢
    omega
  | case4 =>
    rename_i ih
    obtain ⟨inner, there, rfl⟩ := Option.map_eq_some_iff.mp found
    have lengths := ih there
    simp only [Split.push, List.length_append, List.length_cons, List.length_nil] at lengths ⊢
    omega

/-- Pieces of a token list, and what stopped the cutting if anything did. -/
structure Pieces where
  pieces : List (List Token)
  trailing : Option ParseError

def Pieces.push (piece : List Token) (others : Pieces) : Pieces :=
  { others with pieces := piece :: others.pieces }

/-- The statements of a token list. -/
def statements (tokens : List Token) : Pieces :=
  match tokens with
  | [] => ⟨[], none⟩
  | t :: rest =>
    match segmentLength (t :: rest) with
    | .error e => ⟨[], some e⟩
    | .ok n => (statements (rest.drop (n - 1))).push ((t :: rest).take n)
termination_by tokens.length
decreasing_by grind

theorem length_le_of_mem_statements {tokens piece : List Token}
    (member : piece ∈ (statements tokens).pieces) : piece.length ≤ tokens.length := by
  fun_induction statements tokens with
  | case1 => cases member
  | case2 => cases member
  | case3 t rest n _ ih =>
    simp only [Pieces.push, List.mem_cons] at member
    rcases member with rfl | later
    · simp only [List.length_take]; omega
    · have := ih later
      simp only [List.length_drop, List.length_cons] at this ⊢
      omega

/-- Cuts an argument list at the commas outside all brackets. The tokens of the piece at hand are
given in reverse, and an empty piece is blamed on the token that ends it. -/
def cutArguments (last : Token) (depth : Int) (piece : List Token) : List Token → Pieces
  | [] => if piece.isEmpty then ⟨[], some (last.fault .emptyArgument)⟩ else ⟨[piece.reverse], none⟩
  | t :: rest =>
    if t.kind = .comma ∧ depth = 0 then
      if piece.isEmpty then ⟨[], some (t.fault .emptyArgument)⟩
      else (cutArguments last 0 [] rest).push piece.reverse
    else
      let step := bracketStep .openParen .closeParen t.kind + bracketStep .openBrace .closeBrace t.kind
      cutArguments last (depth + step) (t :: piece) rest

/-- The arguments between two parentheses. The last one is blamed on the opening parenthesis. -/
def arguments (paren : Token) (inner : List Token) : Pieces :=
  if inner.isEmpty then ⟨[], none⟩ else cutArguments paren 0 [] inner

theorem length_le_of_mem_cutArguments {last : Token} {depth : Int} {held tokens piece : List Token}
    (member : piece ∈ (cutArguments last depth held tokens).pieces) :
    piece.length ≤ held.length + tokens.length := by
  induction tokens generalizing depth held with
  | nil =>
    simp only [cutArguments] at member
    split at member
    · cases member
    · simp only [List.mem_singleton] at member
      simp [member]
  | cons t rest ih =>
    simp only [cutArguments] at member
    split at member
    · split at member
      · cases member
      · simp only [Pieces.push, List.mem_cons] at member
        rcases member with rfl | later
        · simp
        · have := ih later
          simp only [List.length_nil, List.length_cons] at this ⊢
          omega
    · have := ih member
      simp only [List.length_cons] at this ⊢
      omega

theorem length_le_of_mem_arguments {paren : Token} {inner piece : List Token}
    (member : piece ∈ (arguments paren inner).pieces) : piece.length ≤ inner.length := by
  simp only [arguments] at member
  split at member
  · cases member
  · simpa using length_le_of_mem_cutArguments member

end Scriptlet.Grammar
