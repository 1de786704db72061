import Scriptlet.Console.Basic
import Scriptlet.Text.Octets

/-! The command line program. -/

namespace Scriptlet.Main

/-- No run comes near this many steps. -/
def fuel : Nat := 1000000000000000000

/-- The system's error code for reading from a directory. -/
def isDirectoryCode : UInt32 := 21

def readFile (path : String) : IO (Except Command.ReadFailure String) := do
  if let some fault := Command.pathFault? path then return .error ⟨fault, path⟩
  try
    return .ok (Text.decode (← IO.FS.readBinFile path))
  catch e =>
    let fault : Command.ReadFault := match e with
      | .noFileOrDirectory .. => .missing
      | .permissionDenied .. => .denied
      | .inappropriateType _ code _ => if code = isDirectoryCode then .isDirectory else .notDirectory
      | .invalidArgument .. => .nameTooLong
      | e => .other (toString e)
    return .error ⟨fault, path⟩

def write (output errors : String) : IO Unit := do
  (← IO.getStdout).putStr output
  (← IO.getStdout).flush
  (← IO.getStderr).putStr errors

partial def converse (console : Console) : IO UInt32 := do
  write console.input.prompt ""
  let line ← (← IO.getStdin).getLine
  if line.isEmpty then
    if let some (_, reply) := console.finish fuel (fun path => .error ⟨.missing, path⟩) then
      write (reply.output ++ "\n") reply.errors
    return 0
  let line := String.ofList (line.toList.reverse.dropWhile (· == '\n')).reverse
  let contents ← match console.fileWanted line with
    | some path => readFile path
    | none => pure (.ok "")
  match console.feed fuel (fun _ => contents) line with
  | some (console, reply) =>
    write reply.output reply.errors
    if reply.quit then return 0 else converse console
  | none => return 1

def runFile (options : Command.Options) (color : Bool) (path : String) : IO UInt32 := do
  let start ← IO.monoNanosNow
  let contents ← readFile path
  match Command.runFile fuel (fun _ => contents) options color path with
  | some (run, ran) =>
    let elapsed := ((← IO.monoNanosNow) - start) / 1000
    let result := run.result color (options.timing && ran) elapsed.repr
    write result.output result.errors
    return result.code.toUInt32
  | none => return 1

end Scriptlet.Main

open Scriptlet Scriptlet.Main in
def main (words : List String) : IO UInt32 := do
  let color ← (← IO.getStdout).isTty
  match Command.Request.ofWords words with
  | .console options =>
    write Console.greeting ""
    converse (Console.new options (color && !options.noColor))
  | .file options path => runFile options (color && !options.noColor) path
  | .badOptions e =>
    write "" (Command.errorLine color e.message ++ Command.usage)
    return 1
  | .badUsage =>
    write "" Command.usage
    return 1
  | .help =>
    write Command.usage ""
    return 0
