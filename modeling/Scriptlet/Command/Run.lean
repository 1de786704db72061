import Scriptlet.Command.Getopt
import Scriptlet.Command.Listing
import Scriptlet.Command.Path
import Scriptlet.Command.Style
import Scriptlet.Machine.Run

/-! The command line: what its words ask for, and running a file. -/

namespace Scriptlet.Command

def usage : String := "\n".intercalate [
  "Usage:",
  "  kody [options] <file.kd>",
  "  kody [options] run <file.kd>",
  "  kody [options] repl",
  "",
  "Options:",
  "  -v      print the source, tokens and syntax tree before running",
  "  -e      do not require the .kd extension",
  "  -t      report the time taken",
  "  -d N    maximum function call depth (default 10000)",
  "  -n      disable coloured output",
  "  -h      show this help",
  ""]

def wrongExtension : String :=
  "Incorrect source file extension. Use .kd extension or the -e flag."

/-- The text of a source file, which must have the right extension unless that is ignored. -/
def readScript (read : ReadFile) (ignoreExtension : Bool) (path : String) : Except String String :=
  if extension path ≠ ".kd" ∧ ¬ignoreExtension then .error wrongExtension
  else (read path).mapError fun failure =>
    "Unable to read the contents of file " ++ path ++ ": " ++ failure.message

/-- What the words of a command line ask for. -/
inductive Request where
  | badOptions (e : OptionError)
  | help
  | badUsage
  | console (options : Options)
  | file (options : Options) (path : String)
  deriving DecidableEq, Repr

/-- The name by which the program is called. -/
def programName : String := "kody"

def Request.ofWords (words : List String) : Request :=
  match readWords (getopt letters) programName words with
  | .error e => .badOptions e
  | .ok (options, others) =>
    if options.help then .help
    else match others with
      | [] => .console options
      | [word] =>
        if word = "repl" then .console options
        else if word = "run" then .badUsage
        else .file options word
      | [first, path] => if first = "run" then .file options path else .badUsage
      | _ => .badUsage

/-- What a run wrote, and the message with which it failed if it did. -/
structure FileRun where
  output : String
  failure : Option String

/-- Runs a program text. With `verbose` the text, its tokens and its tree are listed first. -/
def runText (fuel : Nat) (options : Options) (color : Bool) (file text : String) : Option FileRun :=
  let listed (title content : String) : String :=
    if options.verbose then heading color title ++ content else ""
  let contents := listed "File contents:" (text ++ "\n")
  match tokenize text with
  | .error e => some ⟨contents, some e.message⟩
  | .ok tokens =>
    let contents := contents ++ listed "Tokens:" (tokenListing tokens).render
    match Grammar.parseProgram tokens with
    | .error e => some ⟨contents, some e.message⟩
    | .ok program => do
      let contents := contents ++ listed "Syntax tree:" (programListing program).render
      let m := (Machine.new options.maxDepth {} file).setSource file text
      let (outcome, after) ← m.run fuel program
      let failure := match outcome with
        | .ok _ => none
        | .error e => some e.message
      return ⟨contents ++ after.sink.text, failure⟩

/-- Reads and runs a file. The flag says whether there was anything to run, and so to time. -/
def runFile (fuel : Nat) (read : ReadFile) (options : Options) (color : Bool) (path : String) :
    Option (FileRun × Bool) :=
  match readScript read options.ignoreExtension path with
  | .error message => some (⟨"", some message⟩, false)
  | .ok text => (runText fuel options color (baseName path) text).map (·, true)

/-- The exit code of a command and what it wrote. -/
structure Result where
  code : Nat
  output : String
  errors : String
  deriving DecidableEq, Repr

/-- The result of a run that took the given number of microseconds, written out. -/
def FileRun.result (run : FileRun) (color timed : Bool) (elapsed : String) : Result :=
  let output := run.output ++ if timed then "Time elapsed: " ++ elapsed ++ " µs\n" else ""
  match run.failure with
  | none => ⟨0, output, ""⟩
  | some message => ⟨1, output, errorLine color message⟩

/-- The result of a request other than for a console, which goes on line by line. -/
def Request.run (fuel : Nat) (read : ReadFile) (color : Bool) (elapsed : String) :
    Request → Option Result
  | badOptions e => some ⟨1, "", errorLine color e.message ++ usage⟩
  | help => some ⟨0, usage, ""⟩
  | badUsage => some ⟨1, "", usage⟩
  | console _ => some ⟨0, "", ""⟩
  | file options path => do
    let color := color && !options.noColor
    let (run, ran) ← runFile fuel read options color path
    return run.result color (options.timing && ran) elapsed

end Scriptlet.Command
