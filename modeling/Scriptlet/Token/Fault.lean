import Scriptlet.Position
import Scriptlet.Text.Quoted

/-! What can be wrong with the characters of a source text. -/

namespace Scriptlet

inductive LexicalFault where
  | unclosedString
  | escapeAtEnd
  | unknownEscape (c : Char)
  | missingPlus
  | missingHexDigits
  | invalidCodePoint (digits : String)
  | secondPoint
  | letterInNumber (c : Char)
  | unknownCharacter (c : Char)
  deriving DecidableEq, Repr

namespace LexicalFault

/-- The class of a fault. -/
def kind : LexicalFault → String
  | unclosedString => "unterminated string"
  | escapeAtEnd | unknownEscape _ => "invalid escape"
  | missingPlus | missingHexDigits | invalidCodePoint _ => "invalid code point"
  | secondPoint | letterInNumber _ => "invalid number"
  | unknownCharacter _ => "unknown character"

def describe : LexicalFault → String
  | unclosedString => "String literal not closed"
  | escapeAtEnd => "Found end-of-file after escape character \\"
  | unknownEscape c =>
    "Expected any of \\, n, ', \" or U after escape character \\, got " ++ Text.quoteChar c
  | missingPlus => "Expected '+' after \\U"
  | missingHexDigits => "Expected hexadecimal digits after \\U+"
  | invalidCodePoint digits => "U+" ++ digits ++ " is not a valid Unicode code point"
  | secondPoint => "Multiple decimal separators in one number"
  | letterInNumber c => "Found an alphabetical character " ++ Text.quoteChar c ++ " in a number"
  | unknownCharacter c => "Could not match character " ++ Text.quoteChar c ++ " to any token"

end LexicalFault

structure LexicalError where
  fault : LexicalFault
  position : Position
  deriving DecidableEq, Repr

def LexicalError.message (e : LexicalError) : String :=
  "Lexical error at " ++ e.position.text ++ ": " ++ e.fault.describe

end Scriptlet
