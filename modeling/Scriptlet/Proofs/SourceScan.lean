import Scriptlet.Proofs.DecimalValue
import Scriptlet.Proofs.ProgramRendering

/-! Reading a source text piece by piece: the tokens of a text are those of its pieces, one after the
other. -/

namespace Scriptlet.Proofs.SourceScan
open ProgramRendering DecimalValue

/-- In front of the given rest, a text says the given words. -/
def Scans (text : List Char) (words : List Word) (rest : List Char) : Prop :=
  ∀ position, ∃ ts next, ts.map Token.word = words ∧
    Reader.tokens ⟨text ++ rest, position⟩ = (Reader.tokens ⟨rest, next⟩).map (ts ++ ·)

theorem Scans.append {first second rest : List Char} {words more : List Word}
    (before : Scans first words (second ++ rest)) (after : Scans second more rest) :
    Scans (first ++ second) (words ++ more) rest := by
  intro position
  obtain ⟨ts, middle, said, read⟩ := before position
  obtain ⟨others, next, saidAfter, readAfter⟩ := after middle
  refine ⟨ts ++ others, next, by rw [List.map_append, said, saidAfter], ?_⟩
  rw [List.append_assoc, read, readAfter]
  cases Reader.tokens ⟨rest, next⟩ with
  | error e => rfl
  | ok last => simp [Except.map]

theorem Scans.tokenize {text : String} {words : List Word} (scans : Scans text.toList words []) :
    ∃ ts, Scriptlet.tokenize text = .ok ts ∧ ts.map Token.word = words := by
  obtain ⟨ts, next, said, read⟩ := scans .start
  have empty : Reader.tokens ⟨[], next⟩ = .ok [] := by
    rw [Reader.tokens]
    rfl
  rw [List.append_nil, empty] at read
  refine ⟨ts, ?_, said⟩
  rw [Scriptlet.tokenize, Reader.ofText, read]
  simp [Except.map]

theorem tokens_eq (r : Reader) : r.tokens = match r.next with
    | (.error e, _) => .error e
    | (.ok t, s) => if t.kind = .endOfInput then .ok [] else s.tokens.map (t :: ·) := by
  rw [Reader.tokens]
  split
  next read => rw [← Prod.eta r.next, read]
  next read =>
    rw [← Prod.eta r.next, read]
    rfl

theorem scans_space (rest : List Char) : Scans [' '] [] rest := by
  intro position
  refine ⟨[], position.step ' ', rfl, ?_⟩
  have same : Reader.next ⟨[' '] ++ rest, position⟩ = Reader.next ⟨rest, position.step ' '⟩ := rfl
  rw [tokens_eq, same, ← tokens_eq]
  cases Reader.tokens ⟨rest, position.step ' '⟩ <;> rfl

theorem scans_one {c : Char} {text rest lexeme : List Char} {kind : TokenKind}
    (blank : Scan.isSpace c = false ∧ c ≠ '#') (inside : kind ≠ .endOfInput)
    (found : Scan.one c (text ++ rest) = ⟨c :: text, .token kind lexeme, rest⟩) :
    Scans (c :: text) [(kind, String.ofList lexeme)] rest := by
  intro position
  refine ⟨[⟨kind, String.ofList lexeme, position⟩], position.after (c :: text), rfl, ?_⟩
  have unblank : Scan.blanks false (c :: (text ++ rest)) = ([], c :: (text ++ rest)) := by
    simp [Scan.blanks, blank.1, blank.2]
  have read : Reader.next ⟨c :: text ++ rest, position⟩ =
      (.ok ⟨kind, String.ofList lexeme, position⟩, ⟨rest, position.after (c :: text)⟩) := by
    simp only [Reader.next, Reader.skipBlanks, List.cons_append, unblank, found, Position.after_nil]
  rw [tokens_eq, read]
  simp only [if_neg inside]
  rfl

theorem scans_open (rest : List Char) : Scans ['('] [(.openParen, "(")] rest :=
  scans_one ⟨rfl, by decide⟩ (by simp) rfl

theorem scans_close (rest : List Char) : Scans [')'] [(.closeParen, ")")] rest :=
  scans_one ⟨rfl, by decide⟩ (by simp) rfl

theorem scans_return (rest : List Char) :
    Scans ['r', 'e', 't', 'u', 'r', 'n'] [(.returnWord, "return")] (' ' :: rest) :=
  scans_one ⟨rfl, by decide⟩ (by simp) rfl

/-- Nothing more of a number follows. -/
def EndsNumber (rest : List Char) : Prop := rest = [] ∨ ∃ more, rest = ')' :: more

private theorem digits_side {side : List Char} (isSide : IsSide side) (pointSeen : Bool) (rest : List Char) :
    Scan.digits pointSeen (side ++ rest) =
      (side ++ (Scan.digits pointSeen rest).1, (Scan.digits pointSeen rest).2) := by
  induction side with
  | nil => rfl
  | cons c side ih =>
    obtain ⟨first, others⟩ := List.forall_mem_cons.mp isSide
    have passed : (Number.isDigit c || c == '_') = true := by simpa using first
    simp only [List.cons_append, Scan.digits, passed, ↓reduceIte, ih others]

private theorem digits_end {rest : List Char} (ends : EndsNumber rest) (pointSeen : Bool) :
    Scan.digits pointSeen rest = ([], none, rest) := by
  rcases ends with rfl | ⟨more, rfl⟩
  · rfl
  · rfl

private theorem digits_literal (d : WrittenDecimal) {rest : List Char}
    (ends : ∀ pointSeen, Scan.digits pointSeen rest = ([], none, rest)) :
    Scan.digits false (d.chars ++ rest) = (d.chars, none, rest) := by
  rw [WrittenDecimal.chars]
  cases given : d.fraction with
  | none => rw [List.append_nil, digits_side d.whole_isSide, ends, List.append_nil]
  | some side =>
    have point : Scan.digits false ('.' :: (side ++ rest)) =
        ('.' :: (Scan.digits true (side ++ rest)).1, (Scan.digits true (side ++ rest)).2) := rfl
    rw [List.append_assoc, List.cons_append, digits_side d.whole_isSide, point,
      digits_side (d.fractionSide side given), ends, List.append_nil]

private theorem digit_starts_no_word {c : Char} (digit : Number.isDigit c = true) :
    Scan.startsWord c = false ∧ Scan.isSpace c = false ∧ c ≠ '#' := by
  have small : c.toNat ≤ 57 := by
    simp only [Number.isDigit, Bool.and_eq_true, decide_eq_true_eq] at digit
    exact digit.2
  have letter : Scan.isLetter c = false := by
    have lower : ¬ 'a' ≤ c := fun above => absurd (show 97 ≤ c.toNat from above) (by omega)
    have upper : ¬ 'A' ≤ c := fun above => absurd (show 65 ≤ c.toNat from above) (by omega)
    simp [Scan.isLetter, lower, upper]
  have apart : ∀ other ∈ ['_', ' ', '\t', '\r', '\n', '#'], c ≠ other := by
    rintro other member rfl
    simp only [List.mem_cons, List.not_mem_nil, or_false] at member
    rcases member with rfl | rfl | rfl | rfl | rfl | rfl <;> cases digit
  simp only [List.forall_mem_cons] at apart
  obtain ⟨separator, space, tab, carriage, line, comment, _⟩ := apart
  refine ⟨?_, ?_, comment⟩
  · simp [Scan.startsWord, letter, separator]
  · simp [Scan.isSpace, space, tab, carriage, line]

theorem scans_literal (d : WrittenDecimal) {rest : List Char}
    (ends : ∀ pointSeen, Scan.digits pointSeen rest = ([], none, rest)) :
    Scans d.chars [(.number, String.ofList (Number.canonicalChars d.chars))] rest := by
  obtain ⟨word, space, comment⟩ := digit_starts_no_word d.leading
  obtain ⟨tail, shape⟩ : ∃ tail, d.chars = d.first :: tail := ⟨_, rfl⟩
  have whole := digits_literal d ends
  rw [shape] at whole ⊢
  apply scans_one ⟨space, comment⟩ (by simp)
  rw [List.cons_append] at whole
  simp only [Scan.one, word, d.leading, Scan.number, whole, Bool.false_eq_true, ↓reduceIte]

theorem scans_number (d : WrittenDecimal) {rest : List Char} (ends : EndsNumber rest) :
    Scans d.chars [(.number, String.ofList (Number.canonicalChars d.chars))] rest :=
  scans_literal d (digits_end ends)

end Scriptlet.Proofs.SourceScan
