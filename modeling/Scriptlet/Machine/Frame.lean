import Scriptlet.Value

/-! Frames: the variables of one scope. -/

namespace Scriptlet

/-- Names and their values, in the order in which the names were first set. -/
structure Frame where
  entries : List (String × Value) := []
  deriving DecidableEq, Repr, Inhabited

namespace Frame

def setEntry (name : String) (value : Value) : List (String × Value) → List (String × Value)
  | [] => [(name, value)]
  | (key, old) :: rest =>
    if key = name then (key, value) :: rest else (key, old) :: setEntry name value rest

def get? (f : Frame) (name : String) : Option Value := f.entries.lookup name

def set (f : Frame) (name : String) (value : Value) : Frame := ⟨setEntry name value f.entries⟩

def binds (f : Frame) (name : String) : Bool := (f.get? name).isSome

def names (f : Frame) : List String := f.entries.map Prod.fst

/-- The entries in the order of their names. -/
def sorted (f : Frame) : List (String × Value) := f.entries.mergeSort fun a b => a.1 ≤ b.1

/-- The frame in which each parameter has its argument. Of two parameters with one name the later
counts. -/
def ofParameters (params : List String) (args : List Value) : Frame :=
  (params.zip args).foldl (fun f entry => f.set entry.1 entry.2) {}

end Frame
end Scriptlet
