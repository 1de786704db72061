/-! Coloured words in front of messages. -/

namespace Scriptlet.Command

/-- A text between the terminal codes that switch a style on and off. -/
def paint (color : Bool) (code text : String) : String :=
  if color then "\x1b[" ++ code ++ "m" ++ text ++ "\x1b[0m" else text

def errorLine (color : Bool) (message : String) : String :=
  paint color "31;1" "ERROR:" ++ " " ++ message ++ "\n"

/-- A heading with an empty line above it. -/
def heading (color : Bool) (title : String) : String :=
  "\n" ++ paint color "36" "[INFO]:" ++ " " ++ title ++ "\n"

end Scriptlet.Command
