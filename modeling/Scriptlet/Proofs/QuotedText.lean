import Scriptlet.Text.Quoted
import Scriptlet.Token.Scan
import Mathlib.Algebra.Group.Nat.Defs

/-! Quoted text can be read back. Every character is written so that the first characters of what is written tell how
far it goes, so a quoted text has one meaning and one end, whatever quotes, brackets or backslashes stand in it. -/

namespace Scriptlet.Proofs.QuotedText
open Text

private theorem hexValue_append (digits : List Char) (d : Nat) (small : d < 16) :
    Scan.hexValue (digits ++ [hexDigit d]) = 16 * Scan.hexValue digits + d := by
  have digit : ∀ d < 16, (if Number.isDigit (hexDigit d) then (hexDigit d).toNat - '0'.toNat
      else (hexDigit d).toUpper.toNat - 'A'.toNat + 10) = d := by decide
  rw [Scan.hexValue, List.foldl_append, List.foldl_cons, List.foldl_nil, digit d small]
  rfl

private theorem hexValue_hex {width n : Nat} (small : n < 16 ^ width) : Scan.hexValue (hex width n) = n := by
  induction width generalizing n with
  | zero =>
    obtain rfl : n = 0 := by omega
    rfl
  | succ width ih =>
    have shorter : n / 16 < 16 ^ width := by
      rw [Nat.div_lt_iff_lt_mul (by decide), ← Nat.pow_succ]
      exact small
    rw [hex, hexValue_append _ _ (Nat.mod_lt n (by decide)), ih shorter]
    omega

private theorem length_hex (width n : Nat) : (hex width n).length = width := by
  induction width generalizing n with
  | zero => rfl
  | succ width ih => rw [hex, List.length_append, ih, List.length_singleton]

/-- The characters that a letter behind a backslash stands for. -/
def lettered : Char → Option Char
  | 'a' => some '\x07'
  | 'b' => some '\x08'
  | 't' => some '\x09'
  | 'n' => some '\x0a'
  | 'v' => some '\x0b'
  | 'f' => some '\x0c'
  | 'r' => some '\x0d'
  | _ => none

/-- The number of hexadecimal digits that a letter behind a backslash announces. -/
def hexWidth : Char → Option Nat
  | 'x' => some 2
  | 'u' => some 4
  | 'U' => some 8
  | _ => none

/-- The character that the front of a quoted text stands for, and what follows it. -/
def readBack : List Char → Option (Char × List Char)
  | [] => none
  | c :: rest =>
    if c ≠ '\\' then some (c, rest)
    else match rest with
      | [] => none
      | e :: rest => match hexWidth e with
        | some width => some (Char.ofNat (Scan.hexValue (rest.take width)), rest.drop width)
        | none => some ((lettered e).getD e, rest)

private theorem readBack_hex {e : Char} {width : Nat} (announced : hexWidth e = some width) {c : Char}
    (small : c.toNat < 16 ^ width) (rest : List Char) :
    readBack ('\\' :: e :: (hex width c.toNat ++ rest)) = some (c, rest) := by
  have long := length_hex width c.toNat
  rw [readBack, if_neg (by simp), announced]
  dsimp only
  rw [List.take_left' long, List.drop_left' long, hexValue_hex small, Char.ofNat_toNat]

private theorem readBack_escapeCode (c : Char) (rest : List Char) :
    readBack (escapeCode c ++ rest) = some (c, rest) := by
  -- One letter stands for one code.
  have letter : ∀ {e d : Char}, hexWidth e = none → lettered e = some d → c.toNat = d.toNat →
      readBack ('\\' :: e :: rest) = some (c, rest) := by
    intro e d single stands code
    rw [readBack, if_neg (by simp), single, stands, Option.getD_some, Char.toNat_inj.mp code]
  rw [escapeCode]
  split
  · exact letter rfl rfl ‹_›
  · exact letter rfl rfl ‹_›
  · exact letter rfl rfl ‹_›
  · exact letter rfl rfl ‹_›
  · exact letter rfl rfl ‹_›
  · exact letter rfl rfl ‹_›
  · exact letter rfl rfl ‹_›
  · split
    · exact readBack_hex rfl (by omega) rest
    · split
      · exact readBack_hex rfl (by omega) rest
      · exact readBack_hex rfl c.val.toNat_lt rest

private theorem readBack_escape (c : Char) (rest : List Char) : readBack (escape '"' c ++ rest) = some (c, rest) := by
  rw [escape]
  split
  next marked =>
    rcases marked with rfl | rfl
    · rfl
    · rfl
  next plain =>
    split
    · exact if_pos fun slash => plain (Or.inr slash)
    · exact readBack_escapeCode c rest

section Cancelling
variable {rest others : List Char}

private theorem escape_cancel {c d : Char} (same : escape '"' c ++ rest = escape '"' d ++ others) :
    c = d ∧ rest = others := by
  have read := congrArg readBack same
  rw [readBack_escape, readBack_escape] at read
  simpa using read

/-- A quote that is not escaped ends the text. -/
theorem escape_ne_quote (c : Char) : escape '"' c ++ rest ≠ '"' :: others := by
  intro same
  have read := congrArg readBack same
  rw [readBack_escape] at read
  obtain ⟨rfl, _⟩ : c = '"' ∧ rest = others := by simpa [readBack] using read
  cases same

/-- A quoted text is told apart from all others, and so is where it ends. -/
theorem quoted_cancel {content other : List Char}
    (same : content.flatMap (escape '"') ++ '"' :: rest = other.flatMap (escape '"') ++ '"' :: others) :
    content = other ∧ rest = others := by
  induction content generalizing other with
  | nil =>
    cases other with
    | nil => exact ⟨rfl, (List.cons.inj same).2⟩
    | cons d other =>
      rw [List.flatMap_cons, List.append_assoc] at same
      exact absurd same.symm (escape_ne_quote d)
  | cons c content ih =>
    cases other with
    | nil =>
      rw [List.flatMap_cons, List.append_assoc] at same
      exact absurd same (escape_ne_quote c)
    | cons d other =>
      rw [List.flatMap_cons, List.flatMap_cons, List.append_assoc, List.append_assoc] at same
      obtain ⟨rfl, later⟩ := escape_cancel same
      obtain ⟨rfl, ended⟩ := ih later
      exact ⟨rfl, ended⟩

end Cancelling

end Scriptlet.Proofs.QuotedText
