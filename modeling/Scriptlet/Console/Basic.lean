import Scriptlet.Command.Run
import Scriptlet.Console.Input

/-! The interactive console: a session that is fed line by line. -/

namespace Scriptlet

structure Console where
  options : Command.Options
  color : Bool
  input : Console.Input := {}
  machine : Machine
  /-- The number of chunks that have been run. -/
  chunks : Nat := 0

namespace Console

def new (options : Command.Options) (color : Bool) : Console where
  options := options
  color := color
  machine := Machine.new options.maxDepth {} ""

def greeting : String := "\n".intercalate [
  "Kody REPL. :help for commands, :quit to exit.",
  "Open braces continue onto the next line. :paste for longer programs.",
  "",
  ""]

def helpText : String := "\n".intercalate [
  "Commands:",
  "  :help              Show this help",
  "  :quit              Exit the REPL",
  "  :load <file>       Run a .kd file in this session",
  "  :reset             Forget all variables and functions",
  "  :clear             Clear the screen",
  "  :paste             Start paste mode (end with '.' or :endpaste)",
  "  :vars              Show top-level variables",
  "  :funcs             Show user-defined functions",
  "  :natives           Show built-in functions",
  "",
  "Paste mode controls:",
  "  .                  End + run pasted program",
  "  :endpaste          End + run pasted program",
  "  :cancel            Cancel paste without running",
  ""]

/-- What the console wrote, and whether it is to end. -/
structure Reply where
  output : String := ""
  errors : String := ""
  quit : Bool := false
  deriving DecidableEq, Repr, Inhabited

def Reply.append (a b : Reply) : Reply :=
  ⟨a.output ++ b.output, a.errors ++ b.errors, a.quit || b.quit⟩

def say (text : String) : Reply := { output := text ++ "\n" }

def complain (console : Console) (message : String) : Reply :=
  { errors := Command.errorLine console.color message }

/-- Runs a chunk and shows its value, unless that is empty. -/
def runChunk (fuel : Nat) (console : Console) (source : String) : Option (Console × Reply) := do
  let chunks := console.chunks + 1
  let file := "<repl:" ++ chunks.repr ++ ">"
  let (outcome, after) ← console.machine.runChunk fuel file source
  let printed : Reply := { output := after.sink.text }
  let shown := match outcome with
    | .error e => console.complain e.message
    | .ok .empty => {}
    | .ok value => say value.debug
  return ({ console with chunks, machine := { after with sink := after.sink.drained } },
    printed.append shown)

def command (fuel : Nat) (read : Command.ReadFile) (console : Console) (c : Command) :
    Option (Console × Reply) :=
  let only (reply : Reply) : Option (Console × Reply) := some (console, reply)
  match c with
  | .quit => only { quit := true }
  | .help => only { output := helpText }
  | .load path =>
    if path.isEmpty then only (console.complain "Usage: :load <file.kd>")
    else match Command.readScript read console.options.ignoreExtension path with
      | .error message => only (console.complain message)
      | .ok source => console.runChunk fuel source
  | .reset => some ({ console with machine := console.machine.reset }, say "(session cleared)")
  | .clear => only { output := "\x1b[2J\x1b[H" }
  | .paste => only (say "(paste mode: end with '.' or :endpaste, cancel with :cancel)")
  | .vars =>
    match console.machine.sessionEntries with
    | [] => only (say "(no variables)")
    | entries => only (say ("\n".intercalate (entries.map fun (name, v) => name ++ " = " ++ v.debug)))
  | .funcs =>
    match console.machine.functions with
    | [] => only (say "(no user functions)")
    | entries => only (say ("\n".intercalate (entries.map fun (_, d) => d.signature)))
  | .natives => only (say (" ".intercalate (Native.all.map Native.name)))
  | .unknown => only (say "Unknown command. Try :help")

def handle (fuel : Nat) (read : Command.ReadFile) (console : Console) :
    Event → Option (Console × Reply)
  | .run source => console.runChunk fuel source
  | .command c => console.command fuel read c
  | .notice text => some (console, say text)

def handleAll (fuel : Nat) (read : Command.ReadFile) (console : Console) :
    List Event → Option (Console × Reply)
  | [] => some (console, {})
  | event :: events => do
    let (console, first) ← console.handle fuel read event
    let (console, others) ← console.handleAll fuel read events
    return (console, first.append others)

/-- Takes one line. -/
def feed (fuel : Nat) (read : Command.ReadFile) (console : Console) (line : String) :
    Option (Console × Reply) :=
  let (input, events) := console.input.feed line
  { console with input }.handleAll fuel read events

/-- Gives up the lines that are kept. -/
def interrupt (fuel : Nat) (read : Command.ReadFile) (console : Console) :
    Option (Console × Reply) :=
  let (input, events) := console.input.interrupt
  { console with input }.handleAll fuel read events

/-- Runs the lines that are kept, at the end of the input. -/
def finish (fuel : Nat) (read : Command.ReadFile) (console : Console) : Option (Console × Reply) :=
  let (input, events) := console.input.flush
  { console with input }.handleAll fuel read events

/-- The file that a line asks to be read, if it does. -/
def fileWanted (console : Console) (line : String) : Option String :=
  (console.input.feed line).2.findSome? fun
    | .command (.load path) => some path
    | _ => none

end Console
end Scriptlet
