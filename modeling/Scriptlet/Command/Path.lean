/-! File names, and reading files. -/

namespace Scriptlet.Command

/-- The extension of a path: its last name from the last dot on. -/
def extension (path : String) : String :=
  let name := (path.toList.reverse.takeWhile (· != '/')).reverse
  match name.reverse.span (· != '.') with
  | (_, []) => ""
  | (tail, _ :: _) => String.ofList ('.' :: tail.reverse)

/-- The last name of a path. -/
def baseName (path : String) : String :=
  let bare := path.toList.reverse.dropWhile (· == '/')
  if path.isEmpty then "."
  else if bare.isEmpty then "/"
  else String.ofList (bare.takeWhile (· != '/')).reverse

/-- Why a path could not be read. -/
inductive ReadFault where
  | missing
  | isDirectory
  | notDirectory
  | nameTooLong
  /-- The path holds a character that no path can hold. -/
  | invalidPath
  | denied
  | other (text : String)
  deriving DecidableEq, Repr

def ReadFault.describe : ReadFault → String
  | missing => "no such file or directory"
  | isDirectory => "is a directory"
  | notDirectory => "not a directory"
  | nameTooLong => "file name too long"
  | invalidPath => "invalid argument"
  | denied => "permission denied"
  | other text => text

structure ReadFailure where
  fault : ReadFault
  path : String
  deriving DecidableEq, Repr

/-- A directory can be opened, and only reading it fails. -/
def ReadFailure.message (f : ReadFailure) : String :=
  (if f.fault = .isDirectory then "read " else "open ") ++ f.path ++ ": " ++ f.fault.describe

/-- A way to read files. -/
abbrev ReadFile := String → Except ReadFailure String

/-- The greatest number of octets in one name of a path. -/
def nameLimit : Nat := 255

/-- The greatest number of octets in a whole path. -/
def pathLimit : Nat := 4095

/-- What is wrong with a path whatever files there are. -/
def pathFault? (path : String) : Option ReadFault :=
  if path.toList.contains '\x00' then some .invalidPath
  else if path.isEmpty then some .missing
  else if pathLimit < path.utf8ByteSize then some .nameTooLong
  else none

/-- Files held in memory under a working directory, by their paths. -/
structure Folder where
  files : List (String × String)

namespace Folder

/-- Where a path leads: to some names below the working directory, or out of it. Outside there are
directories, but nothing of a known name. -/
inductive Place where
  | inside (names : List String)
  | outside
  deriving DecidableEq, Repr

def Place.parent : Place → Place
  | inside [] | outside => outside
  | inside (name :: names) => inside (name :: names).dropLast

inductive Entry where
  | file (text : String)
  | directory
  | missing

def names (path : String) : List String := path.splitOn "/"

/-- What stands at a place. -/
def entry (folder : Folder) : Place → Entry
  | .outside => .directory
  | .inside path =>
    match folder.files.find? (fun file => names file.1 == path) with
    | some file => .file file.2
    | none =>
      if path.isEmpty || folder.files.any (fun file => path.isPrefixOf (names file.1)) then .directory
      else .missing

/-- Follows names from one directory to the next. -/
def follow (folder : Folder) (here : Place) : List String → Except ReadFault String
  | [] => match folder.entry here with
    | .file text => .ok text
    | .directory => .error .isDirectory
    | .missing => .error .missing
  | name :: rest => match folder.entry here with
    | .file _ => .error .notDirectory
    | .missing => .error .missing
    | .directory =>
      if name = "" ∨ name = "." then follow folder here rest
      else if name = ".." then follow folder here.parent rest
      else if nameLimit < name.utf8ByteSize then .error .nameTooLong
      else match here with
        | .outside => .error .missing
        | .inside path => follow folder (.inside (path ++ [name])) rest

def read (folder : Folder) : ReadFile := fun path =>
  let start := if path.startsWith "/" then Place.outside else .inside []
  let found : Except ReadFault String := match pathFault? path with
    | some fault => .error fault
    | none => folder.follow start (names path)
  found.mapError (⟨·, path⟩)

end Folder
end Scriptlet.Command
