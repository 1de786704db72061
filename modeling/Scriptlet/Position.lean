/-! Places in a source text, as line and column. Both count from one, and columns count
characters. -/

namespace Scriptlet

/-- A place in a source text. One that is not positive in both coordinates is unknown. -/
structure Position where
  line : Int := 0
  col : Int := 0
  deriving DecidableEq, Repr, Inhabited

namespace Position

def start : Position := ⟨1, 1⟩

def isKnown (p : Position) : Bool := 0 < p.line && 0 < p.col

def text (p : Position) : String := toString p.line ++ ":" ++ toString p.col

def step (p : Position) (c : Char) : Position :=
  if c = '\n' then ⟨p.line + 1, 1⟩ else { p with col := p.col + 1 }

/-- The place after the given characters have been passed. -/
def after (p : Position) (passed : List Char) : Position := passed.foldl step p

@[simp] theorem after_nil (p : Position) : p.after [] = p := rfl

@[simp] theorem after_cons (p : Position) (c : Char) (passed : List Char) :
    p.after (c :: passed) = (p.step c).after passed := rfl

theorem after_append (p : Position) (first second : List Char) :
    p.after (first ++ second) = (p.after first).after second := by
  simp [after]

end Position
end Scriptlet
