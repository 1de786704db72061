import Scriptlet.Machine.Sink
import Scriptlet.Value

/-! The built-in functions. Operators are calls of the ones whose names start with underscores. -/

namespace Scriptlet

inductive Native where
  | add
  | and
  | divide
  | equal
  | greater
  | greaterEqual
  | less
  | lessEqual
  | multiply
  | negate
  | not
  | notEqual
  | or
  | subtract
  | print
  deriving DecidableEq, Repr

/-- What can go wrong in a built-in function. -/
inductive NativeFault where
  | arity (function : String) (expected given : Nat)
  | argument (function : String) (place : Nat) (expected : Value.Kind) (given : Value)
  | divisionByZero (function : String)
  | refusedWrite
  deriving DecidableEq, Repr

def NativeFault.message : NativeFault → String
  | arity function expected given =>
    function ++ ": expected " ++ expected.repr ++ " arguments, got " ++ given.repr
  | argument function place expected given =>
    function ++ ": argument " ++ place.repr ++ " must be " ++ expected.name ++ ", got " ++ given.debug
  | divisionByZero function => function ++ ": division by zero"
  | refusedWrite => "print: sink is full"

namespace Native

/-- All built-in functions, in the order of their names. -/
def all : List Native :=
  [add, and, divide, equal, greater, greaterEqual, less, lessEqual, multiply, negate, not, notEqual,
    or, subtract, print]

def name : Native → String
  | add => "__add"
  | and => "__and"
  | divide => "__divide"
  | equal => "__equal"
  | greater => "__greater_than"
  | greaterEqual => "__greater_than_or_equal"
  | less => "__less_than"
  | lessEqual => "__less_than_or_equal"
  | multiply => "__multiply"
  | negate => "__negate"
  | not => "__not"
  | notEqual => "__not_equal"
  | or => "__or"
  | subtract => "__subtract"
  | print => "print"

def ofName? (name : String) : Option Native := all.find? (·.name == name)

/-- What is said of a name that no built-in function has. -/
def unknown (name : String) : String := "no native function named " ++ Text.quote name

def number (f : Native) (place : Nat) : Value → Except NativeFault Number
  | .number n => .ok n
  | v => .error (.argument f.name place .number v)

def bool (f : Native) (place : Nat) : Value → Except NativeFault Bool
  | .bool b => .ok b
  | v => .error (.argument f.name place .bool v)

def unary (f : Native) (take : Nat → Value → Except NativeFault α) (apply : α → Value) :
    List Value → Except NativeFault Value
  | [v] => do return apply (← take 1 v)
  | args => .error (.arity f.name 1 args.length)

def binary (f : Native) (take : Nat → Value → Except NativeFault α)
    (apply : α → α → Except NativeFault Value) : List Value → Except NativeFault Value
  | [v, w] => do apply (← take 1 v) (← take 2 w)
  | args => .error (.arity f.name 2 args.length)

def arithmetic (f : Native) (apply : Number → Number → Number) :
    List Value → Except NativeFault Value :=
  f.binary f.number fun a b => .ok (.number (apply a b))

def comparison (f : Native) (holds : Ordering → Bool) : List Value → Except NativeFault Value :=
  f.binary f.number fun a b => .ok (.bool (holds (compare a b)))

def logic (f : Native) (apply : Bool → Bool → Bool) : List Value → Except NativeFault Value :=
  f.binary f.bool fun a b => .ok (.bool (apply a b))

/-- The line that a call of `print` writes. -/
def printed (args : List Value) : String := "".intercalate (args.map Value.text) ++ "\n"

/-- The result of a function that prints nothing. -/
def compute (f : Native) (args : List Value) : Except NativeFault Value :=
  match f with
  | add => f.arithmetic (· + ·) args
  | subtract => f.arithmetic (· - ·) args
  | multiply => f.arithmetic (· * ·) args
  | divide =>
    f.binary f.number (fun a b => match a.div? b with
      | some n => .ok (.number n)
      | none => .error (.divisionByZero f.name)) args
  | negate => f.unary f.number (fun a => .number (-a)) args
  | equal => f.comparison Ordering.isEq args
  | notEqual => f.comparison Ordering.isNe args
  | less => f.comparison Ordering.isLT args
  | lessEqual => f.comparison Ordering.isLE args
  | greater => f.comparison Ordering.isGT args
  | greaterEqual => f.comparison Ordering.isGE args
  | and => f.logic Bool.and args
  | or => f.logic Bool.or args
  | not => f.unary f.bool (fun b => .bool !b) args
  | print => .ok .empty

/-- Calls a built-in function. Only `print` writes, one write for each call. -/
def apply (f : Native) (args : List Value) (sink : Sink) : Except NativeFault Value × Sink :=
  if f = print then
    match sink.write? (printed args) with
    | some sink => (.ok .empty, sink)
    | none => (.error .refusedWrite, sink)
  else (f.compute args, sink)

end Native
end Scriptlet
