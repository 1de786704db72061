import Scriptlet.Console.Depth
import Scriptlet.Text.Blank

/-! Typed lines, and when they make up something to run. Lines are kept while a brace is open, while
an `else` may still follow, and in paste mode. -/

namespace Scriptlet.Console

inductive Command where
  | quit
  | help
  | load (path : String)
  | reset
  | clear
  | paste
  | vars
  | funcs
  | natives
  | unknown
  deriving DecidableEq, Repr

/-- A line without the blanks around it. -/
def trimmed (line : String) : String := String.ofList (Text.trim line.toList)

/-- The command on a trimmed line. A path may follow `:load` directly. -/
def Command.ofLine (line : String) : Command :=
  match line with
  | ":q" | ":quit" | ":exit" => quit
  | ":h" | ":help" => help
  | ":reset" => reset
  | ":clear" => clear
  | ":paste" => paste
  | ":vars" => vars
  | ":funcs" => funcs
  | ":natives" => natives
  | _ =>
    match line.toList with
    | ':' :: 'l' :: 'o' :: 'a' :: 'd' :: path => load (String.ofList (Text.trim path))
    | _ => unknown

/-- What a line leads to. -/
inductive Event where
  | run (source : String)
  | command (c : Command)
  | notice (text : String)
  deriving DecidableEq, Repr

structure Input where
  /-- The lines that are kept. -/
  lines : List String := []
  /-- The number of open braces. -/
  depth : Nat := 0
  /-- The kept lines are complete, but an `else` may follow. -/
  held : Bool := false
  pasteMode : Bool := false
  /-- The lines of paste mode. -/
  pasted : List String := []
  deriving DecidableEq, Repr, Inhabited

/-- Lines as one text. -/
def textOf (lines : List String) : String := "".intercalate (lines.map (· ++ "\n"))

def isBlankText (text : String) : Bool := text.toList.all Text.isBlank

namespace Input

def prompt (input : Input) : String :=
  if input.pasteMode then "paste> "
  else if 0 < input.depth ∨ input.held then "...> "
  else "kody> "

/-- Gives up what is kept. -/
def interrupt (input : Input) : Input × List Event :=
  if input.pasteMode then
    ({ input with pasteMode := false, pasted := [] }, [.notice "^C (paste cancelled)"])
  else if ¬input.lines.isEmpty ∨ 0 < input.depth then
    ({ input with lines := [], depth := 0, held := false }, [.notice "^C (buffer cleared)"])
  else (input, [])

/-- Runs what is kept. -/
def flush (input : Input) : Input × List Event :=
  let source := textOf input.lines
  ({ input with lines := [], depth := 0, held := false },
    if isBlankText source then [] else [.run source])

/-- A line in paste mode. -/
def feedPasted (input : Input) (line : String) : Input × List Event :=
  match trimmed line with
  | "." | ":endpaste" =>
    let source := textOf input.pasted
    ({ input with pasted := [], pasteMode := false },
      if isBlankText source then [.notice "(paste buffer empty)"] else [.run source])
  | ":cancel" => ({ input with pasted := [], pasteMode := false }, [.notice "(paste cancelled)"])
  | _ => ({ input with pasted := input.pasted ++ [line] }, [])

/-- A line outside paste mode. Only where nothing is kept can it be a command. -/
def feedLine (input : Input) (line : String) : Input × List Event :=
  if input.depth = 0 ∧ input.lines.isEmpty ∧ (trimmed line).startsWith ":" then
    let command := Command.ofLine (trimmed line)
    (if command = .paste then { input with pasted := [], pasteMode := true } else input, [.command command])
  else
    let lines := input.lines ++ [line]
    let depth := openBraces input.depth line
    let kept := { input with lines, depth }
    if 0 < depth then (kept, [])
    else if endsWithIf (textOf lines) then ({ kept with held := true }, [])
    else kept.flush

/-- Takes one more line. Held lines are run first, unless the line starts with `else`. -/
def feed (input : Input) (line : String) : Input × List Event :=
  if input.pasteMode then input.feedPasted line
  else if input.held then
    let waiting := { input with held := false }
    if startsWithElse (trimmed line) then waiting.feedLine line
    else
      let (flushed, before) := waiting.flush
      if (trimmed line).isEmpty then (flushed, before)
      else
        let (after, events) := flushed.feedLine line
        (after, before ++ events)
  else input.feedLine line

end Input
end Scriptlet.Console
