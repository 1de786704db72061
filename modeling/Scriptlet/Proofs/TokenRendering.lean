import Scriptlet.Proofs.CanonicalDecimal
import Scriptlet.Proofs.SourceScan

/-! Tokens as text. Every proper token can be written so that it is read back, with one space between
two tokens, and reading a text makes proper tokens only. -/

namespace Scriptlet.Proofs.TokenRendering
open ProgramRendering DecimalValue CanonicalDecimal SourceScan

def reserved : List Word :=
  [(.ifWord, "if"), (.elseWord, "else"), (.whileWord, "while"), (.andWord, "and"), (.orWord, "or"),
    (.notWord, "not"), (.trueWord, "true"), (.falseWord, "false"), (.funcWord, "func"),
    (.returnWord, "return")]

def symbols : List Word :=
  [(.assign, "="), (.plusAssign, "+="), (.minusAssign, "-="), (.starAssign, "*="), (.slashAssign, "/="),
    (.plus, "+"), (.minus, "-"), (.star, "*"), (.slash, "/"), (.equal, "=="), (.notEqual, "!="),
    (.less, "<"), (.greater, ">"), (.lessEqual, "<="), (.greaterEqual, ">="), (.openParen, "("),
    (.closeParen, ")"), (.openBrace, "\x7b"), (.closeBrace, "\x7d"), (.comma, ","), (.dot, ".")]

theorem reserved_ne_number : ∀ word ∈ reserved, word.1 ≠ .number := by decide

theorem symbols_ne_number : ∀ word ∈ symbols, word.1 ≠ .number := by decide

/-- Letters, digits and underscores, with no digit in front. -/
structure IsName (name : List Char) : Prop where
  starts : ∃ c ∈ name.head?, c.isAlpha = true ∨ c = '_'
  continues : ∀ c ∈ name, c.isAlphanum = true ∨ c = '_'

/-- The words that the language has. -/
inductive Proper : Word → Prop where
  | name {chars : List Char} (isName : IsName chars)
      (free : ∀ word ∈ reserved, word.2 ≠ String.ofList chars) : Proper (.ident, String.ofList chars)
  | reserved {word : Word} (member : word ∈ reserved) : Proper word
  | number {chars : List Char} (canonical : IsCanonical chars) : Proper (.number, String.ofList chars)
  | string (content : String) : Proper (.string, content)
  | symbol {word : Word} (member : word ∈ symbols) : Proper word

def escaped (c : Char) : List Char := if c = '"' ∨ c = '\\' then ['\\', c] else [c]

def quoted (content : List Char) : List Char := '"' :: (content.flatMap escaped ++ ['"'])

def spelling (word : Word) : List Char :=
  match word.1 with
  | .string => quoted word.2.toList
  | _ => word.2.toList

/-- The words one after the other, with a space between two of them. -/
def spaced (words : List Word) : List Char := [' '].intercalate (words.map spelling)

def render (ts : List Token) : String := String.ofList (spaced (ts.map Token.word))

def Parted (rest : List Char) : Prop := rest = [] ∨ ∃ more, rest = ' ' :: more

section Scanning
variable {rest : List Char}

private theorem takeWhile_parted {p : Char → Bool} {chars : List Char} (all : ∀ c ∈ chars, p c = true)
    (space : p ' ' = false) (parted : Parted rest) :
    (chars ++ rest).takeWhile p = chars ∧ (chars ++ rest).dropWhile p = rest := by
  rw [List.takeWhile_append_of_pos all, List.dropWhile_append_of_pos all]
  rcases parted with rfl | ⟨more, rfl⟩
  · simp
  · simp [space]

private theorem startsWord_not_blank {c : Char} (starts : Scan.startsWord c = true) :
    Scan.isSpace c = false ∧ c ≠ '#' := by
  constructor
  · cases space : Scan.isSpace c with
    | false => rfl
    | true =>
      simp only [Scan.isSpace, Bool.or_eq_true, beq_iff_eq] at space
      rcases space with ((rfl | rfl) | rfl) | rfl <;> cases starts
  · rintro rfl
    cases starts

private theorem isLetter_eq (c : Char) : Scan.isLetter c = c.isAlpha := by
  have upper : ('A' ≤ c && c ≤ 'Z') = c.isUpper := (Bool.decide_and ('A' ≤ c) (c ≤ 'Z')).symm
  rw [Scan.isLetter, upper, Bool.or_comm]
  rfl

private theorem startsWord_iff (c : Char) : Scan.startsWord c = true ↔ c.isAlpha = true ∨ c = '_' := by
  rw [Scan.startsWord, isLetter_eq, Bool.or_eq_true, beq_iff_eq]

private theorem continuesWord_iff (c : Char) : Scan.continuesWord c = true ↔ c.isAlphanum = true ∨ c = '_' := by
  have digit : Number.isDigit c = c.isDigit := rfl
  rw [Scan.continuesWord, Bool.or_eq_true, startsWord_iff, digit, Char.isAlphanum, Bool.or_eq_true, or_right_comm]

/-- Names are what the scan of a word passes. -/
theorem isName_iff {name : List Char} :
    IsName name ↔ name.head?.any Scan.startsWord = true ∧ name.all Scan.continuesWord = true := by
  simp only [Option.any_eq_true, List.all_eq_true, startsWord_iff, continuesWord_iff]
  constructor
  · intro isName
    exact ⟨isName.starts, isName.continues⟩
  · rintro ⟨starts, continues⟩
    exact ⟨starts, continues⟩

theorem ofWord_cases (name : String) :
    (TokenKind.ofWord name, name) ∈ reserved ∨
      TokenKind.ofWord name = .ident ∧ ∀ word ∈ reserved, word.2 ≠ name := by
  unfold TokenKind.ofWord
  split
  case h_11 =>
    right
    simp_all [reserved, eq_comm]
  all_goals
    left
    simp [reserved]

theorem reserved_facts : ∀ word ∈ reserved, TokenKind.ofWord word.2 = word.1 ∧ word.1 ≠ .endOfInput ∧
    spelling word = word.2.toList ∧ word.2.toList.head?.any Scan.startsWord = true ∧
    word.2.toList.all Scan.continuesWord = true := by
  decide

private theorem ofWord_inside (name : String) : TokenKind.ofWord name ≠ .endOfInput := by
  rcases ofWord_cases name with member | ⟨free, _⟩
  · exact (reserved_facts _ member).2.1
  · rw [free]
    simp

private theorem scans_word {name : List Char} (isName : IsName name) (parted : Parted rest) :
    Scans name [(.ofWord (String.ofList name), String.ofList name)] rest := by
  obtain ⟨starts, continues⟩ := isName_iff.mp isName
  obtain ⟨taken, dropped⟩ := takeWhile_parted (List.all_eq_true.mp continues) rfl parted
  cases name with
  | nil => cases starts
  | cons c others =>
    simp only [List.head?_cons, Option.any_some] at starts
    apply scans_one (startsWord_not_blank starts) (ofWord_inside _)
    rw [List.cons_append] at taken dropped
    simp only [Scan.one, starts, Scan.word, taken, dropped, ↓reduceIte]

private theorem scans_reserved {word : Word} (member : word ∈ reserved) (parted : Parted rest) :
    Scans (spelling word) [word] rest := by
  obtain ⟨kind, _, spelled, starts, continues⟩ := reserved_facts word member
  have scans := scans_word (isName_iff.mpr ⟨starts, continues⟩) parted
  rw [String.ofList_toList, kind] at scans
  rw [spelled]
  exact scans

private theorem digits_parted (parted : Parted rest) (pointSeen : Bool) :
    Scan.digits pointSeen rest = ([], none, rest) := by
  rcases parted with rfl | ⟨more, rfl⟩
  · rfl
  · rfl

private theorem scans_canonical {chars : List Char} (canonical : IsCanonical chars) (parted : Parted rest) :
    Scans chars [(.number, String.ofList chars)] rest := by
  obtain ⟨d, written, spelled⟩ := canonical.decimal
  have scans := scans_literal d (digits_parted parted)
  rw [d.canonicalChars_eq, spelled, written] at scans
  exact scans

theorem string_plain {c : Char} {text : List Char} (quote : c ≠ '"') (slash : c ≠ '\\') :
    Scan.string (c :: text) = (Scan.string text).push [c] [c] := by
  rw [Scan.string.eq_def]
  dsimp only
  rw [if_neg quote, if_pos slash]

theorem string_escape {e : Char} {text content : List Char} (escape : Scan.escape? e = some content) :
    Scan.string ('\\' :: e :: text) = (Scan.string text).push ['\\', e] content := by
  rw [Scan.string.eq_def]
  dsimp only
  rw [if_neg (by decide), if_neg (by decide)]
  simp only [escape]

private theorem string_escaped (c : Char) (rest : List Char) :
    Scan.string (escaped c ++ rest) = (Scan.string rest).push (escaped c) [c] := by
  by_cases special : c = '"' ∨ c = '\\'
  · have known : Scan.escape? c = some [c] := by
      rcases special with rfl | rfl <;> rfl
    rw [escaped, if_pos special, List.cons_append, List.singleton_append, string_escape known]
  · obtain ⟨quote, backslash⟩ := not_or.mp special
    rw [escaped, if_neg special, List.singleton_append, string_plain quote backslash]

private theorem string_quoted (content rest : List Char) :
    Scan.string (content.flatMap escaped ++ '"' :: rest) =
      ⟨content.flatMap escaped ++ ['"'], content, .closed, rest⟩ := by
  induction content with
  | nil =>
    rw [List.flatMap_nil, List.nil_append, Scan.string.eq_def]
    rfl
  | cons c content ih =>
    rw [List.flatMap_cons, List.append_assoc, string_escaped, ih]
    simp [Scan.Body.push]

private theorem scans_string (content : String) (rest : List Char) :
    Scans (spelling (.string, content)) [(.string, content)] rest := by
  have scans : Scans (quoted content.toList) [(.string, String.ofList content.toList)] rest := by
    apply scans_one ⟨rfl, by decide⟩ (by simp)
    rw [List.append_assoc, List.singleton_append]
    simp only [Scan.one, Scan.stringLiteral, string_quoted]
    rfl
  rw [String.ofList_toList] at scans
  exact scans

theorem scans_symbol (parted : Parted rest) : ∀ word ∈ symbols, Scans (spelling word) [word] rest := by
  simp only [symbols, List.forall_mem_cons]
  rcases parted with rfl | ⟨more, rfl⟩
  · refine ⟨?_, ?_, ?_, ?_, ?_, ?_, ?_, ?_, ?_, ?_, ?_, ?_, ?_, ?_, ?_, ?_, ?_, ?_, ?_, ?_, ?_, by simp⟩
    all_goals exact scans_one ⟨rfl, by decide⟩ (by simp) rfl
  · refine ⟨?_, ?_, ?_, ?_, ?_, ?_, ?_, ?_, ?_, ?_, ?_, ?_, ?_, ?_, ?_, ?_, ?_, ?_, ?_, ?_, ?_, by simp⟩
    all_goals exact scans_one ⟨rfl, by decide⟩ (by simp) rfl

theorem spelling_of_ne {word : Word} (plain : word.1 ≠ .string) : spelling word = word.2.toList := by
  rw [spelling]
  split
  · contradiction
  · rfl

theorem Proper.scans {word : Word} (proper : Proper word) (parted : Parted rest) :
    Scans (spelling word) [word] rest := by
  cases proper with
  | @name chars isName free =>
    have scans := scans_word isName parted
    rcases ofWord_cases (String.ofList chars) with member | ⟨ident, _⟩
    · exact absurd rfl (free _ member)
    · rw [ident] at scans
      rw [spelling_of_ne (by simp), String.toList_ofList]
      exact scans
  | reserved member => exact scans_reserved member parted
  | number canonical =>
    rw [spelling_of_ne (by simp), String.toList_ofList]
    exact scans_canonical canonical parted
  | string content => exact scans_string content rest
  | symbol member => exact scans_symbol parted _ member

private theorem scans_nil (rest : List Char) : Scans [] [] rest := by
  intro position
  refine ⟨[], position, rfl, ?_⟩
  rw [List.nil_append]
  cases Reader.tokens ⟨rest, position⟩ <;> rfl

private theorem scans_spaced {words : List Word} (proper : ∀ word ∈ words, Proper word) :
    Scans (spaced words) words [] := by
  induction words with
  | nil => exact scans_nil []
  | cons word words ih =>
    obtain ⟨first, others⟩ := List.forall_mem_cons.mp proper
    cases words with
    | nil =>
      have alone : spaced [word] = spelling word := by simp [spaced]
      rw [alone]
      exact first.scans (Or.inl rfl)
    | cons next words =>
      have split : spaced (word :: next :: words) = spelling word ++ ([' '] ++ spaced (next :: words)) := by
        simp [spaced, List.intercalate]
      rw [split]
      exact (first.scans (Or.inr ⟨_, rfl⟩)).append ((scans_space _).append (ih others))

end Scanning

private theorem word_proper {c : Char} (starts : Scan.startsWord c = true) (rest : List Char) :
    Proper (.ofWord (String.ofList ((c :: rest).takeWhile Scan.continuesWord)),
      String.ofList ((c :: rest).takeWhile Scan.continuesWord)) := by
  have isName : IsName ((c :: rest).takeWhile Scan.continuesWord) := by
    apply isName_iff.mpr
    constructor
    · rw [List.takeWhile_cons_of_pos (by simp [Scan.continuesWord, starts])]
      simpa using starts
    · apply List.all_eq_true.mpr
      intro c member
      exact List.mem_takeWhile_imp member
  rcases ofWord_cases (String.ofList ((c :: rest).takeWhile Scan.continuesWord)) with member | ⟨ident, free⟩
  · exact .reserved member
  · rw [ident]
    exact .name isName free

private theorem isSide_cons {c : Char} {side : List Char} (first : (Number.isDigit c || c == '_') = true)
    (others : IsSide side) : IsSide (c :: side) := by
  intro d member
  rcases List.mem_cons.mp member with rfl | later
  · simpa using first
  · exact others d later

private theorem isSide_digits (text : List Char) : IsSide (Scan.digits true text).1 := by
  induction text with
  | nil => simp [Scan.digits, IsSide]
  | cons c rest ih =>
    rw [Scan.digits]
    split
    next digit =>
      exact isSide_cons digit ih
    · split
      · simp [IsSide]
      · split <;> simp [IsSide]

/-- What is passed of a number has the form of a literal, whatever ends it. -/
theorem digits_parts (text : List Char) : ∃ whole fraction, IsSide whole ∧ (∀ side ∈ fraction, IsSide side) ∧
    (Scan.digits false text).1 = whole ++ match fraction with
      | none => []
      | some side => '.' :: side := by
  have nothing : IsSide [] := by simp [IsSide]
  induction text with
  | nil => exact ⟨[], none, nothing, by simp, rfl⟩
  | cons c rest ih =>
    rw [Scan.digits]
    split
    next digit =>
      obtain ⟨whole, fraction, isWhole, isFraction, passed⟩ := ih
      refine ⟨c :: whole, fraction, isSide_cons digit isWhole, isFraction, ?_⟩
      simp only [passed, List.cons_append]
    · split
      next point =>
        refine ⟨[], some (Scan.digits true rest).1, nothing, ?_, ?_⟩
        · intro side given
          cases Option.mem_some_iff.mp given
          exact isSide_digits rest
        · simp [point]
      · refine ⟨[], none, nothing, by simp, ?_⟩
        split <;> rfl

/-- A number is scanned from a literal, and is spelled canonically. -/
theorem number_decimal {c : Char} {rest lexeme : List Char} {kind : TokenKind}
    (digit : Number.isDigit c = true) (found : (Scan.number (c :: rest)).found = .token kind lexeme) :
    ∃ d : WrittenDecimal, (Scan.number (c :: rest)).passed = d.chars ∧ kind = .number ∧
      lexeme = Number.canonicalChars d.chars := by
  obtain ⟨whole, fraction, isWhole, isFraction, passed⟩ := digits_parts rest
  have whole : (Scan.digits false (c :: rest)).1 =
      (⟨c, whole, fraction, digit, isWhole, isFraction⟩ : WrittenDecimal).chars := by
    simp only [Scan.digits, digit, Bool.true_or, ↓reduceIte, passed]
    rfl
  rw [Scan.number] at found ⊢
  split at found
  next scanned =>
    rw [scanned] at whole
    dsimp only at whole
    cases found
    exact ⟨_, whole, rfl, congrArg _ whole⟩
  · cases found

private theorem number_proper {c : Char} {rest lexeme : List Char} {kind : TokenKind}
    (digit : Number.isDigit c = true) (found : (Scan.number (c :: rest)).found = .token kind lexeme) :
    Proper (kind, String.ofList lexeme) := by
  obtain ⟨d, _, rfl, rfl⟩ := number_decimal digit found
  rw [d.canonicalChars_eq]
  exact .number (canonicalSpelling_isCanonical d)

private theorem stringLiteral_proper {quote : Char} {rest lexeme : List Char} {kind : TokenKind}
    (found : (Scan.stringLiteral quote rest).found = .token kind lexeme) : Proper (kind, String.ofList lexeme) := by
  simp only [Scan.stringLiteral] at found
  split at found
  · cases found
    exact .string _
  · cases found
  · cases found

theorem symbol_mem {c : Char} {rest lexeme : List Char} {kind : TokenKind}
    (found : (Scan.symbol c rest).found = .token kind lexeme) : (kind, String.ofList lexeme) ∈ symbols := by
  simp only [Scan.symbol] at found
  repeat' split at found
  all_goals cases found
  all_goals decide

theorem one_proper {c : Char} {rest lexeme : List Char} {kind : TokenKind}
    (found : (Scan.one c rest).found = .token kind lexeme) : Proper (kind, String.ofList lexeme) := by
  rw [Scan.one] at found
  split at found
  next starts =>
    cases found
    exact word_proper starts rest
  · split at found
    next digit =>
      exact number_proper digit found
    · split at found
      · exact stringLiteral_proper found
      · exact .symbol (symbol_mem found)

theorem decimal_of_proper {word : Word} (proper : Proper word) (number : word.1 = .number) :
    ∃ d : WrittenDecimal, word.2 = String.ofList (Number.canonicalChars d.chars) := by
  cases proper with
  | name => cases number
  | string => cases number
  | reserved member => exact absurd number (reserved_ne_number _ member)
  | symbol member => exact absurd number (symbols_ne_number _ member)
  | number canonical =>
    obtain ⟨d, _, canonical⟩ := canonical.decimal
    exact ⟨d, by rw [d.canonicalChars_eq, canonical]⟩

private theorem next_proper {r : Reader} {t : Token} (read : r.next.1 = .ok t) (inside : t.kind ≠ .endOfInput) :
    Proper t.word := by
  simp only [Reader.next] at read
  split at read
  · cases read
    exact absurd rfl inside
  · split at read
    next found =>
      cases read
      exact one_proper found
    · cases read

theorem tokens_proper {r : Reader} {ts : List Token} (read : r.tokens = .ok ts) : ∀ t ∈ ts, Proper t.word := by
  fun_induction Reader.tokens r generalizing ts with
  | case1 => cases read
  | case2 =>
    cases read
    simp
  | case3 r t found inside ih =>
    cases later : r.next.2.tokens with
    | error e =>
      rw [later] at read
      cases read
    | ok others =>
      rw [later] at read
      cases read
      exact List.forall_mem_cons.mpr ⟨next_proper found inside, ih later⟩

/-- Writing tokens down and reading them again gives the same tokens, and what is read from any text are
such tokens. So writing down what was read changes nothing but places. -/
theorem tokenize_render :
    (∀ ts : List Token, (∀ t ∈ ts, Proper t.word) →
      ∃ again, tokenize (render ts) = .ok again ∧ again.map Token.word = ts.map Token.word) ∧
    (∀ source ts, tokenize source = .ok ts →
      (∀ t ∈ ts, Proper t.word) ∧
      ∃ again, tokenize (render ts) = .ok again ∧ again.map Token.word = ts.map Token.word) := by
  have back (ts : List Token) (proper : ∀ t ∈ ts, Proper t.word) :
      ∃ again, tokenize (render ts) = .ok again ∧ again.map Token.word = ts.map Token.word := by
    apply Scans.tokenize
    rw [render, String.toList_ofList]
    apply scans_spaced
    intro word member
    obtain ⟨t, inside, rfl⟩ := List.mem_map.mp member
    exact proper t inside
  refine ⟨back, ?_⟩
  intro source ts read
  exact ⟨tokens_proper read, back ts (tokens_proper read)⟩

def sampleTokens : List Token :=
  [⟨.string, "\"\\\n# \x7b", {}⟩, ⟨.number, "10.25", {}⟩, ⟨.dot, ".", {}⟩, ⟨.number, "0", {}⟩,
    ⟨.assign, "=", {}⟩, ⟨.equal, "==", {}⟩, ⟨.ifWord, "if", {}⟩, ⟨.ident, "if_2", {}⟩]

theorem sampleTokens_read_back :
    render sampleTokens = "\"\\\"\\\\\n# \x7b\" 10.25 . 0 = == if if_2" ∧
    ∃ again, tokenize (render sampleTokens) = .ok again ∧ again.map Token.word = sampleTokens.map Token.word ∧
      ∃ third, tokenize (render again) = .ok third ∧ third.map Token.word = sampleTokens.map Token.word := by
  have ten : IsWhole ['1', '0'] := ⟨List.all_eq_true.mp (by decide), by decide, by decide⟩
  have quarter : IsFraction ['2', '5'] := ⟨List.all_eq_true.mp (by decide), by decide, by decide⟩
  have none : IsWhole ['0'] := ⟨List.all_eq_true.mp (by decide), by decide, by decide⟩
  have proper : ∀ t ∈ sampleTokens, Proper t.word := by
    simp only [sampleTokens, List.forall_mem_cons]
    refine ⟨.string _, .number (.pointed ten quarter), .symbol (by decide), .number (.integer none),
      .symbol (by decide), .symbol (by decide), .reserved (by decide), ?_, by simp⟩
    exact @Proper.name ['i', 'f', '_', '2'] (isName_iff.mpr ⟨by decide, by decide⟩) (by decide)
  obtain ⟨again, read, same⟩ := tokenize_render.1 sampleTokens proper
  obtain ⟨_, third, readAgain, sameAgain⟩ := tokenize_render.2 _ again read
  exact ⟨by decide, again, read, same, third, readAgain, sameAgain.trans same⟩

end Scriptlet.Proofs.TokenRendering
