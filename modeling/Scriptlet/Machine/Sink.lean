/-! Where printed text goes. A sink may have room for a limited number of writes, and refuses every
write after that. -/

namespace Scriptlet

/-- The writes that were accepted, in order, and how many more will be. No limit means that all
will. -/
structure Sink where
  room : Option Nat := none
  writes : Array String := #[]
  deriving DecidableEq, Repr, Inhabited

namespace Sink

/-- The sink after one more write, nothing if the write is refused. -/
def write? (s : Sink) (text : String) : Option Sink :=
  match s.room with
  | none => some { s with writes := s.writes.push text }
  | some 0 => none
  | some (n + 1) => some ⟨some n, s.writes.push text⟩

def text (s : Sink) : String := "".intercalate s.writes.toList

/-- The same sink without the text written so far. -/
def drained (s : Sink) : Sink := { s with writes := #[] }

end Sink
end Scriptlet
