import Scriptlet.Proofs.JoinedSource

/-! Reading on and on. A reader can be asked for the next token any number of times, also behind errors and behind the
end of the text. Its place is always that behind the characters it has passed, every answer but the end of input takes
characters from the text, and the place of a token or an error is that of the character it is about. -/

namespace Scriptlet.Proofs.ReaderRun
open TokenRendering JoinedSource

/-- The place behind some characters of a text: the line is told by the line ends among them, and the column by the
characters since the last one. -/
def placeBehind (passed : List Char) : Position where
  line := 1 + passed.count '\n'
  col := 1 + (passed.reverse.takeWhile (· ≠ '\n')).length

/-- The one place lies before the other in a text. -/
def Before (p q : Position) : Prop := p.line < q.line ∨ p.line = q.line ∧ p.col < q.col

theorem Before.trans {p q r : Position} (first : Before p q) (second : Before q r) : Before p r := by
  unfold Before at *
  omega

private theorem before_step (p : Position) (c : Char) : Before p (p.step c) := by
  rw [Position.step, Before]
  split
  · left
    dsimp only
    omega
  · right
    dsimp only
    omega

private theorem before_after (p : Position) {passed : List Char} (some : passed ≠ []) : Before p (p.after passed) := by
  induction passed generalizing p with
  | nil => exact absurd rfl some
  | cons c passed ih =>
    rw [Position.after_cons]
    cases passed with
    | nil => exact before_step p c
    | cons d passed => exact (before_step p c).trans (ih (p.step c) (by simp))

private theorem placeBehind_step (passed : List Char) (c : Char) :
    placeBehind (passed ++ [c]) = (placeBehind passed).step c := by
  rw [Position.step]
  split
  next ends =>
    subst ends
    simp only [placeBehind, List.count_append, List.count_singleton_self, List.reverse_append, List.reverse_singleton,
      List.singleton_append]
    simp
    omega
  next inside =>
    simp [placeBehind, List.count_append, inside]
    omega

theorem placeBehind_append (passed more : List Char) :
    placeBehind (passed ++ more) = (placeBehind passed).after more := by
  induction more generalizing passed with
  | nil => rw [List.append_nil, Position.after_nil]
  | cons c more ih => rw [List.append_cons, ih, placeBehind_step, Position.after_cons]

theorem start_after (passed : List Char) : Position.start.after passed = placeBehind passed :=
  (placeBehind_append [] passed).symm

/-- Characters between tokens, which may start and end inside a comment. -/
inductive Blank : Bool → List Char → Bool → Prop where
  | nil (inComment : Bool) : Blank inComment [] inComment
  | space {c : Char} {chars : List Char} {ends : Bool} (space : Scan.isSpace c = true) (more : Blank false chars ends) :
      Blank false (c :: chars) ends
  | comment {chars : List Char} {ends : Bool} (more : Blank true chars ends) : Blank false ('#' :: chars) ends
  | inside {c : Char} {chars : List Char} {ends : Bool} (inside : c ≠ '\n') (more : Blank true chars ends) :
      Blank true (c :: chars) ends
  | close {chars : List Char} {ends : Bool} (more : Blank false chars ends) : Blank true ('\n' :: chars) ends

private theorem blanks_blank (inComment : Bool) (text : List Char) :
    ∃ ends, Blank inComment (Scan.blanks inComment text).1 ends ∧
      ((Scan.blanks inComment text).2 = [] ∨ ends = false) := by
  induction text generalizing inComment with
  | nil => exact ⟨inComment, .nil inComment, Or.inl rfl⟩
  | cons c text ih =>
    cases inComment with
    | true =>
      obtain ⟨ends, blank, left⟩ := ih (c != '\n')
      refine ⟨ends, ?_, left⟩
      by_cases line : c = '\n'
      · subst line
        exact .close blank
      · rw [bne_iff_ne.mpr line] at blank
        rw [Scan.blanks, if_pos rfl, bne_iff_ne.mpr line]
        exact .inside line blank
    | false =>
      rw [Scan.blanks, if_neg Bool.false_ne_true]
      split
      next space =>
        obtain ⟨ends, blank, left⟩ := ih false
        exact ⟨ends, .space space blank, left⟩
      · split
        next comment =>
          subst comment
          obtain ⟨ends, blank, left⟩ := ih true
          exact ⟨ends, .comment blank, left⟩
        · exact ⟨false, .nil false, Or.inr rfl⟩

/-- The characters between the quotes of a string, and the text they denote. -/
inductive Denotes : List Char → List Char → Prop where
  | nil : Denotes [] []
  | plain {c : Char} {chars content : List Char} (quote : c ≠ '"') (slash : c ≠ '\\') (more : Denotes chars content) :
      Denotes (c :: chars) (c :: content)
  | escape {e : Char} {meant chars content : List Char} (escape : Scan.escape? e = some meant)
      (more : Denotes chars content) : Denotes ('\\' :: e :: chars) (meant ++ content)
  | point {digits chars content : List Char} {code : Char} (some : digits ≠ [])
      (hex : ∀ d ∈ digits, Scan.isHexDigit d = true) (all : chars.takeWhile Scan.isHexDigit = [])
      (valid : Scan.codePoint? (Scan.hexValue digits) = .some code) (more : Denotes chars content) :
      Denotes ('\\' :: 'U' :: '+' :: (digits ++ chars)) (code :: content)

/-- A token of this kind with this text can be written as these characters. -/
inductive Spelled : TokenKind → List Char → List Char → Prop where
  | word {first : Char} {more : List Char} (starts : Scan.startsWord first = true)
      (continues : ∀ c ∈ more, Scan.continuesWord c = true) :
      Spelled (.ofWord (String.ofList (first :: more))) (first :: more) (first :: more)
  | number {digit : Char} {more : List Char} (first : Number.isDigit digit = true)
      (others : ∀ c ∈ more, Number.isDigit c = true ∨ c = '_' ∨ c = '.') :
      Spelled .number (Number.canonicalChars (digit :: more)) (digit :: more)
  | string {body content : List Char} (denotes : Denotes body content) :
      Spelled .string content ('"' :: (body ++ ['"']))
  | symbol {kind : TokenKind} {chars : List Char} (member : (kind, String.ofList chars) ∈ symbols) :
      Spelled kind chars chars

/-- A number cannot go on with what follows. -/
inductive StopsNumber : LexicalFault → List Char → Prop where
  | point (rest : List Char) : StopsNumber .secondPoint ('.' :: rest)
  | letter {c : Char} (rest : List Char) (letter : Scan.isLetter c = true) : StopsNumber (.letterInNumber c) (c :: rest)

/-- The characters of an escape that cannot be read, and what follows them. -/
inductive BadEscape : LexicalFault → List Char → List Char → Prop where
  | ended : BadEscape .escapeAtEnd ['\\'] []
  | unknown {e : Char} (rest : List Char) (unknown : Scan.escape? e = none) (other : e ≠ 'U') :
      BadEscape (.unknownEscape e) ['\\', e] rest
  | plus {rest : List Char} (missing : ∀ more, rest ≠ '+' :: more) : BadEscape .missingPlus ['\\', 'U'] rest
  | digits {rest : List Char} (missing : rest.takeWhile Scan.isHexDigit = []) :
      BadEscape .missingHexDigits ['\\', 'U', '+'] rest
  | point {digits rest : List Char} (some : digits ≠ []) (hex : ∀ d ∈ digits, Scan.isHexDigit d = true)
      (all : rest.takeWhile Scan.isHexDigit = []) (invalid : Scan.codePoint? (Scan.hexValue digits) = none) :
      BadEscape (.invalidCodePoint (String.ofList (digits.map Char.toUpper))) ('\\' :: 'U' :: '+' :: digits) rest

/-- What a fault is about. Of the characters that the reader has passed it is about the first one of the second list:
the first digit of a number, the opening quote of a string, the backslash of an escape, or a character that starts no
token. -/
inductive Blamed : LexicalFault → List Char → List Char → List Char → Prop where
  | number {fault : LexicalFault} {digit : Char} {more rest : List Char} (first : Number.isDigit digit = true)
      (others : ∀ c ∈ more, Number.isDigit c = true ∨ c = '_' ∨ c = '.') (stops : StopsNumber fault rest) :
      Blamed fault [] (digit :: more) rest
  | string {body content : List Char} (denotes : Denotes body content) : Blamed .unclosedString [] ('"' :: body) []
  | escape {fault : LexicalFault} {body content bad rest : List Char} (denotes : Denotes body content)
      (unread : BadEscape fault bad rest) : Blamed fault ('"' :: body) bad rest
  | character (c : Char) (rest : List Char) : Blamed (.unknownCharacter c) [] [c] rest

theorem Spelled.ne_nil {kind : TokenKind} {lexeme chars : List Char} (spelled : Spelled kind lexeme chars) :
    chars ≠ [] := by
  cases spelled with
  | word => simp
  | number => simp
  | string => simp
  | symbol member =>
    rintro rfl
    have all : ∀ word ∈ symbols, word.2 ≠ "" := by decide
    exact all _ member rfl

theorem Blamed.ne_nil {fault : LexicalFault} {lead bad rest : List Char} (blamed : Blamed fault lead bad rest) :
    bad ≠ [] := by
  cases blamed with
  | number => simp
  | string => simp
  | escape _ unread => cases unread <;> simp
  | character => simp

section Scanning
variable {text : List Char}

private theorem digits_read (pointSeen : Bool) (text : List Char) :
    (∀ c ∈ (Scan.digits pointSeen text).1, Number.isDigit c = true ∨ c = '_' ∨ c = '.') ∧
      ∀ fault ∈ (Scan.digits pointSeen text).2.1, StopsNumber fault (Scan.digits pointSeen text).2.2 := by
  induction text generalizing pointSeen with
  | nil => simp [Scan.digits]
  | cons c text ih =>
    rw [Scan.digits]
    split
    next digit =>
      refine ⟨List.forall_mem_cons.mpr ⟨?_, (ih pointSeen).1⟩, (ih pointSeen).2⟩
      rcases Bool.or_eq_true_iff.mp digit with digit | separator
      · exact Or.inl digit
      · exact Or.inr (Or.inl (beq_iff_eq.mp separator))
    · split
      next point =>
        subst point
        split
        · simpa using StopsNumber.point text
        · exact ⟨List.forall_mem_cons.mpr ⟨Or.inr (Or.inr rfl), (ih true).1⟩, (ih true).2⟩
      · split
        next letter =>
          simpa using StopsNumber.letter text letter
        · simp

/-- The characters of a string behind its opening quote are told by how it ends. -/
def ReadBody (body : Scan.Body) : Prop :=
  match body.ending with
  | .closed => ∃ chars, body.passed = chars ++ ['"'] ∧ Denotes chars body.content
  | .unclosed => Denotes body.passed body.content ∧ body.rest = []
  | .fault before fault =>
    ∃ bad, body.passed = before ++ bad ∧ Denotes before body.content ∧ BadEscape fault bad body.rest

/-- Characters that denote something can be put in front of any string. -/
theorem ReadBody.push {body : Scan.Body} {chars content : List Char} (read : ReadBody body)
    (front : ∀ before meant, before <+: body.passed → Denotes before meant →
      Denotes (chars ++ before) (content ++ meant)) :
    ReadBody (body.push chars content) := by
  obtain ⟨passed, meant, ending, rest⟩ := body
  cases ending with
  | closed =>
    obtain ⟨before, whole, denotes⟩ := read
    refine ⟨chars ++ before, ?_, front before meant ⟨_, whole.symm⟩ denotes⟩
    simp only [Scan.Body.push, List.append_assoc]
    exact congrArg (chars ++ ·) whole
  | unclosed => exact ⟨front passed meant (List.prefix_refl _) read.1, read.2⟩
  | fault before fault =>
    obtain ⟨bad, whole, denotes, blame⟩ := read
    refine ⟨bad, ?_, front before meant ⟨_, whole.symm⟩ denotes, blame⟩
    simp only [Scan.Body.push, List.append_assoc]
    exact congrArg (chars ++ ·) whole

private theorem takeWhile_prefix_dropWhile {p : Char → Bool} {before : List Char}
    (start : before <+: text.dropWhile p) :
    before.takeWhile p = [] := by
  cases before with
  | nil => rfl
  | cons c before =>
    obtain ⟨more, whole⟩ := start
    have stops := List.head?_dropWhile_not p text
    rw [← whole] at stops
    exact List.takeWhile_cons_of_neg (by simp [show p c = false from stops])

private theorem string_read (text : List Char) : ReadBody (Scan.string text) := by
  induction length : text.length using Nat.strong_induction_on generalizing text with
  | _ n ih =>
    subst length
    rw [Scan.string.eq_def]
    cases text with
    | nil => exact ⟨.nil, rfl⟩
    | cons c rest =>
      dsimp only
      by_cases quote : c = '"'
      · rw [if_pos quote]
        exact ⟨[], by rw [quote]; rfl, .nil⟩
      rw [if_neg quote]
      by_cases slash : c ≠ '\\'
      · rw [if_pos slash]
        exact (ih _ (by simp) rest rfl).push fun _ _ _ denotes => .plain quote slash denotes
      rw [if_neg slash]
      obtain rfl := not_not.mp slash
      cases rest with
      | nil => exact ⟨['\\'], rfl, .nil, .ended⟩
      | cons e rest =>
        dsimp only
        split
        case h_1 content escape =>
          exact (ih _ (by simp +arith) rest rfl).push fun _ _ _ denotes => .escape escape denotes
        case h_2 escape =>
          by_cases unicode : e ≠ 'U'
          · rw [if_pos unicode]
            exact ⟨['\\', e], rfl, .nil, .unknown rest escape unicode⟩
          rw [if_neg unicode]
          obtain rfl := not_not.mp unicode
          split
          case h_2 other => exact ⟨['\\', 'U'], rfl, .nil, .plus other⟩
          case h_1 text =>
            have shorter := Scan.length_dropWhile_le Scan.isHexDigit text
            split
            case isTrue none => exact ⟨['\\', 'U', '+'], rfl, .nil, .digits (List.isEmpty_iff.mp none)⟩
            case isFalse given =>
              have some : text.takeWhile Scan.isHexDigit ≠ [] := fun none => given (List.isEmpty_iff.mpr none)
              have hex : ∀ d ∈ text.takeWhile Scan.isHexDigit, Scan.isHexDigit d = true :=
                fun d member => List.mem_takeWhile_imp member
              split
              case h_1 code valid =>
                have front := Scan.string_passed_append_rest (text.dropWhile Scan.isHexDigit)
                refine (ih _ (by simp +arith; omega) _ rfl).push fun before meant start denotes => ?_
                exact .point some hex (takeWhile_prefix_dropWhile (start.trans ⟨_, front⟩)) valid denotes
              case h_2 invalid =>
                exact ⟨_, rfl, .nil, .point some hex (takeWhile_prefix_dropWhile (List.prefix_refl _)) invalid⟩

/-- A scan that finds a token has passed a spelling of it, and one that finds a fault has passed what the fault is
about, behind what lies before it. -/
def ReadScan (scan : Scan.Result) : Prop :=
  match scan.found with
  | .token kind lexeme => Spelled kind lexeme scan.passed
  | .fault before fault => ∃ bad, scan.passed = before ++ bad ∧ Blamed fault before bad scan.rest

private theorem word_read {c : Char} (starts : Scan.startsWord c = true) (rest : List Char) :
    ReadScan (Scan.word (c :: rest)) := by
  have first : (c :: rest).takeWhile Scan.continuesWord = c :: rest.takeWhile Scan.continuesWord :=
    List.takeWhile_cons_of_pos (by simp [Scan.continuesWord, starts])
  rw [Scan.word, first]
  exact Spelled.word starts fun c member => List.mem_takeWhile_imp member

private theorem number_read {c : Char} (digit : Number.isDigit c = true) (rest : List Char) :
    ReadScan (Scan.number (c :: rest)) := by
  obtain ⟨others, stops⟩ := digits_read false rest
  have whole : Scan.digits false (c :: rest) = (c :: (Scan.digits false rest).1, (Scan.digits false rest).2) := by
    rw [Scan.digits, if_pos (by simp [digit])]
  rw [Scan.number, whole]
  generalize Scan.digits false rest = read at others stops
  obtain ⟨more, fault, left⟩ := read
  cases fault with
  | none => exact Spelled.number digit others
  | some fault => exact ⟨c :: more, rfl, .number digit others (stops fault rfl)⟩

private theorem stringLiteral_read (rest : List Char) : ReadScan (Scan.stringLiteral '"' rest) := by
  have read := string_read rest
  rw [Scan.stringLiteral]
  generalize Scan.string rest = body at read
  obtain ⟨passed, content, ending, left⟩ := body
  cases ending with
  | closed =>
    obtain ⟨chars, rfl, denotes⟩ := read
    exact Spelled.string denotes
  | unclosed =>
    obtain ⟨denotes, rfl⟩ := read
    exact ⟨_, rfl, .string denotes⟩
  | fault before fault =>
    obtain ⟨bad, rfl, denotes, unread⟩ := read
    exact ⟨bad, rfl, .escape denotes unread⟩

private theorem symbol_read (c : Char) (rest : List Char) : ReadScan (Scan.symbol c rest) := by
  simp only [Scan.symbol]
  repeat' split
  all_goals first | exact Spelled.symbol (by decide) | exact ⟨_, rfl, .character _ rest⟩

private theorem one_read (c : Char) (rest : List Char) : ReadScan (Scan.one c rest) := by
  rw [Scan.one]
  split
  · exact word_read ‹_› rest
  · split
    · exact number_read ‹_› rest
    · split
      next quote =>
        subst quote
        exact stringLiteral_read rest
      · exact symbol_read c rest

end Scanning

/-- An answer to the question for the next token, given what was passed before, what was left then, and what is left
afterwards. At the end of the text only blanks and perhaps a comment are left; any other answer is about characters
behind the blanks. -/
inductive AnswersNext (passed : List Char) : List Char → Except LexicalError Token → List Char → Prop where
  | ended {blank : List Char} {inComment : Bool} (skipped : Blank false blank inComment) :
      AnswersNext passed blank (.ok ⟨.endOfInput, "", placeBehind (passed ++ blank)⟩) []
  | token {blank chars rest : List Char} {t : Token} (skipped : Blank false blank false) (inside : t.kind ≠ .endOfInput)
      (spelled : Spelled t.kind t.lexeme.toList chars) (place : t.position = placeBehind (passed ++ blank)) :
      AnswersNext passed (blank ++ (chars ++ rest)) (.ok t) rest
  | error {blank lead bad rest : List Char} {e : LexicalError} (skipped : Blank false blank false)
      (blamed : Blamed e.fault lead bad rest) (place : e.position = placeBehind (passed ++ blank ++ lead)) :
      AnswersNext passed (blank ++ (lead ++ (bad ++ rest))) (.error e) rest

section Answer
variable {r : Reader} {passed : List Char}

theorem next_answers (placed : r.position = placeBehind passed) : AnswersNext passed r.rest r.next.1 r.next.2.rest := by
  obtain ⟨ends, blank, stopped⟩ := blanks_blank false r.rest
  have whole := Scan.blanks_passed_append_rest false r.rest
  simp only [Reader.next, Reader.skipBlanks, placed, ← placeBehind_append]
  split
  next ended =>
    rw [ended, List.append_nil] at whole
    rw [ended]
    rw [whole] at blank ⊢
    exact .ended blank
  next c text remaining =>
    have outside : ends = false := stopped.resolve_left (by simp [remaining])
    subst outside
    have scanned := Scan.one_passed_append_rest c text
    have read := one_read c text
    rw [remaining, ← scanned] at whole
    rw [ReadScan] at read
    split
    next kind lexeme found =>
      rw [found] at read
      nth_rewrite 1 [← whole]
      refine .token blank (Proper.inside (one_proper found)) ?_ rfl
      rw [String.toList_ofList]
      exact read
    next before fault found =>
      rw [found] at read
      obtain ⟨bad, split, blamed⟩ := read
      nth_rewrite 1 [← whole]
      rw [split, List.append_assoc]
      exact .error blank blamed rfl

/-- The reader goes on behind the characters it has taken. -/
theorem next_taken (r : Reader) :
    ∃ taken, r.rest = taken ++ r.next.2.rest ∧ r.next.2.position = r.position.after taken := by
  have whole := Scan.blanks_passed_append_rest false r.rest
  simp only [Reader.next, Reader.skipBlanks]
  split
  next ended =>
    exact ⟨_, whole.symm, rfl⟩
  next c text remaining =>
    refine ⟨(Scan.blanks false r.rest).1 ++ (Scan.one c text).passed, ?_, (Position.after_append ..).symm⟩
    rw [List.append_assoc, Scan.one_passed_append_rest, ← remaining, whole]

/-- The answer is the end of input. -/
def isEnd : Except LexicalError Token → Bool
  | .ok t => t.kind == .endOfInput
  | .error _ => false

variable {rest left : List Char} {answer : Except LexicalError Token}

theorem AnswersNext.end_eq (answers : AnswersNext passed rest answer left) (ended : isEnd answer = true) :
    answer = .ok ⟨.endOfInput, "", placeBehind (passed ++ rest)⟩ ∧ left = [] := by
  cases answers with
  | ended => exact ⟨rfl, rfl⟩
  | token _ inside => exact absurd (beq_iff_eq.mp ended) inside
  | error => cases ended

theorem AnswersNext.shorter (answers : AnswersNext passed rest answer left) (going : isEnd answer = false) :
    left.length < rest.length := by
  cases answers with
  | ended => cases going
  | token _ _ spelled =>
    have some := List.length_pos_iff.mpr spelled.ne_nil
    simp only [List.length_append]
    omega
  | error _ blamed =>
    have some := List.length_pos_iff.mpr blamed.ne_nil
    simp only [List.length_append]
    omega

theorem AnswersNext.token_cases {t : Token} (answers : AnswersNext passed rest (.ok t) left) :
    (t.kind = .endOfInput ∧ t.position = placeBehind (passed ++ rest) ∧ ∃ inComment, Blank false rest inComment) ∨
    (t.kind ≠ .endOfInput ∧ ∃ blank chars, rest = blank ++ (chars ++ left) ∧ Blank false blank false ∧
      Spelled t.kind t.lexeme.toList chars ∧ t.position = placeBehind (passed ++ blank)) := by
  cases answers with
  | ended skipped => exact Or.inl ⟨rfl, rfl, _, skipped⟩
  | token skipped inside spelled place => exact Or.inr ⟨inside, _, _, rfl, skipped, spelled, place⟩

/-- The place of a token is not before that of the reader. -/
theorem AnswersNext.token_place {t : Token} (answers : AnswersNext passed rest (.ok t) left) :
    ∃ skipped, t.position = placeBehind (passed ++ skipped) := by
  rcases answers.token_cases with ⟨_, place, _⟩ | ⟨_, blank, _, _, _, _, place⟩
  · exact ⟨rest, place⟩
  · exact ⟨blank, place⟩

end Answer

/-- The reader after some questions for the next token. -/
def readerAfter (source : String) : Nat → Reader
  | 0 => .ofText source
  | n + 1 => (readerAfter source n).next.2

/-- The answer to a question that comes after some others. -/
def answer (source : String) (n : Nat) : Except LexicalError Token := (readerAfter source n).next.1

/-- The characters that the reader has passed. -/
def passedBy (source : String) (n : Nat) : List Char :=
  source.toList.take (source.length - (readerAfter source n).rest.length)

section Run
variable (source : String)

/-- Nothing is lost, and the place is that behind the characters passed. -/
theorem readerAfter_standing (n : Nat) : source.toList = passedBy source n ++ (readerAfter source n).rest ∧
    (readerAfter source n).position = placeBehind (passedBy source n) := by
  have standing : ∃ passed, source.toList = passed ++ (readerAfter source n).rest ∧
      (readerAfter source n).position = placeBehind passed := by
    induction n with
    | zero => exact ⟨[], rfl, rfl⟩
    | succ n ih =>
      obtain ⟨passed, whole, place⟩ := ih
      obtain ⟨taken, split, next⟩ := next_taken (readerAfter source n)
      refine ⟨passed ++ taken, ?_, ?_⟩
      · rw [whole, split, List.append_assoc]
        rfl
      · rw [placeBehind_append, ← place]
        exact next
  obtain ⟨passed, whole, place⟩ := standing
  have same : passedBy source n = passed := by
    rw [passedBy, ← String.length_toList, whole]
    simp
  rw [same]
  exact ⟨whole, place⟩

private theorem passedBy_succ (n : Nat) :
    ∃ taken, (readerAfter source n).rest = taken ++ (readerAfter source (n + 1)).rest ∧
    passedBy source (n + 1) = passedBy source n ++ taken := by
  obtain ⟨taken, split, _⟩ := next_taken (readerAfter source n)
  refine ⟨taken, split, ?_⟩
  have whole : passedBy source (n + 1) ++ (readerAfter source (n + 1)).rest =
      passedBy source n ++ taken ++ (readerAfter source (n + 1)).rest := by
    rw [← (readerAfter_standing source (n + 1)).1, (readerAfter_standing source n).1, split, List.append_assoc]
    rfl
  exact List.append_cancel_right whole

private theorem passedBy_mono {n m : Nat} (later : n ≤ m) : passedBy source n <+: passedBy source m := by
  induction later with
  | refl => exact List.prefix_refl _
  | @step m _ ih =>
    obtain ⟨taken, _, grown⟩ := passedBy_succ source m
    rw [grown]
    exact ih.trans (List.prefix_append _ _)

theorem answers (n : Nat) :
    AnswersNext (passedBy source n) (readerAfter source n).rest (answer source n) (readerAfter source (n + 1)).rest :=
  next_answers (readerAfter_standing source n).2

private theorem passedBy_grows {n : Nat} (going : isEnd (answer source n) = false) :
    (passedBy source n).length < (passedBy source (n + 1)).length := by
  obtain ⟨taken, split, grown⟩ := passedBy_succ source n
  have shorter := (answers source n).shorter going
  rw [split, List.length_append] at shorter
  rw [grown, List.length_append]
  omega

/-- At the end of input the whole text was passed. -/
theorem answer_end {n : Nat} (ended : isEnd (answer source n) = true) :
    answer source n = .ok ⟨.endOfInput, "", placeBehind source.toList⟩ ∧ (readerAfter source (n + 1)).rest = [] := by
  obtain ⟨same, left⟩ := (answers source n).end_eq ended
  rw [← (readerAfter_standing source n).1] at same
  exact ⟨same, left⟩

private theorem answer_of_rest {n : Nat} (nothing : (readerAfter source n).rest = []) :
    isEnd (answer source n) = true := by
  cases ended : isEnd (answer source n) with
  | true => rfl
  | false =>
    have shorter := (answers source n).shorter ended
    rw [nothing] at shorter
    cases shorter

private theorem answer_stays {n m : Nat} (later : n ≤ m) (ended : isEnd (answer source n) = true) :
    isEnd (answer source m) = true := by
  induction later with
  | refl => exact ended
  | step _ ih => exact answer_of_rest source (answer_end source ih).2

/-- Every question that is not answered by the end of input takes a character. -/
theorem countP_answers (m : Nat) :
    (List.range m).countP (fun n => !isEnd (answer source n)) ≤ (passedBy source m).length := by
  induction m with
  | zero => simp
  | succ m ih =>
    rw [List.range_succ, List.countP_append, List.countP_singleton]
    cases ended : isEnd (answer source m) with
    | true =>
      have longer := (passedBy_mono source (Nat.le_add_right m 1)).length_le
      simp only [Bool.not_true, Bool.false_eq_true, ↓reduceIte]
      omega
    | false =>
      have longer := passedBy_grows source ended
      simp only [Bool.not_false, ↓reduceIte]
      omega

private theorem before_of_answers {i j : Nat} {a b : Token} (later : i < j) (first : answer source i = .ok a)
    (inside : a.kind ≠ .endOfInput) (second : answer source j = .ok b) : Before a.position b.position := by
  have one := answers source i
  have two := answers source j
  rw [first] at one
  rw [second] at two
  obtain ⟨_, blank, chars, split, _, spelled, place⟩ := one.token_cases.resolve_left fun ended => inside ended.1
  obtain ⟨skipped, position⟩ := two.token_place
  obtain ⟨taken, parts, grown⟩ := passedBy_succ source i
  obtain ⟨more, extended⟩ := passedBy_mono source (Nat.succ_le_of_lt later)
  rw [← List.append_assoc] at split
  have same : taken = blank ++ chars := List.append_cancel_right (parts.symm.trans split)
  have reached : passedBy source j ++ skipped = (passedBy source i ++ blank) ++ (chars ++ (more ++ skipped)) := by
    rw [← extended, grown, same]
    simp only [List.append_assoc]
  rw [place, position, reached, placeBehind_append _ (chars ++ (more ++ skipped))]
  exact before_after _ (by simp [spelled.ne_nil])

end Run

/-- Whatever the text, and however often a reader is asked for the next token: it stands behind the characters it has
passed, every answer is about characters at the place it gives, every answer but the end of input takes characters, so
that there are at most as many of these as characters, the end of input is the answer for ever once it was given, and
tokens come in the order of their places. -/
theorem reader_stands_behind_passed (source : String) :
    (∀ n, source.toList = passedBy source n ++ (readerAfter source n).rest ∧
      (readerAfter source n).position = placeBehind (passedBy source n) ∧
      AnswersNext (passedBy source n) (readerAfter source n).rest (answer source n) (readerAfter source (n + 1)).rest) ∧
    (∀ n, isEnd (answer source n) = false → (passedBy source n).length < (passedBy source (n + 1)).length) ∧
    (∀ m, (List.range m).countP (fun n => !isEnd (answer source n)) ≤ source.length) ∧
    (∀ n m, n ≤ m → isEnd (answer source n) = true → answer source m = answer source n) ∧
    ∀ i j a b, i < j → answer source i = .ok a → a.kind ≠ .endOfInput → answer source j = .ok b →
      Before a.position b.position := by
  refine ⟨fun n => ?_, fun n => passedBy_grows source, fun m => ?_, fun n m later ended => ?_,
    fun i j a b => before_of_answers source⟩
  · obtain ⟨whole, place⟩ := readerAfter_standing source n
    exact ⟨whole, place, answers source n⟩
  · have some := countP_answers source m
    have all := congrArg List.length (readerAfter_standing source m).1
    rw [String.length_toList, List.length_append] at all
    omega
  · rw [(answer_end source ended).1, (answer_end source (answer_stays source later ended)).1]

/-- A number with two points, an unknown escape in a string, and an unknown character on the second line. -/
def sampleText : String := "x = 1.2.5 \"a\\q # b\n@ y"

theorem sampleText_read_on :
    answer sampleText 0 = .ok ⟨.ident, "x", ⟨1, 1⟩⟩ ∧ answer sampleText 2 = .error ⟨.secondPoint, ⟨1, 5⟩⟩ ∧
      answer sampleText 5 = .error ⟨.unknownEscape 'q', ⟨1, 13⟩⟩ ∧
      answer sampleText 7 = .ok ⟨.ident, "y", ⟨2, 3⟩⟩ ∧ Before ⟨1, 1⟩ ⟨2, 3⟩ ∧
      (passedBy sampleText 5).length < (passedBy sampleText 6).length ∧
      answer sampleText 50 = .ok ⟨.endOfInput, "", ⟨2, 4⟩⟩ := by
  obtain ⟨_, grows, _, stays, ordered⟩ := reader_stands_behind_passed sampleText
  have first : answer sampleText 0 = .ok ⟨.ident, "x", ⟨1, 1⟩⟩ := by decide +kernel
  have last : answer sampleText 7 = .ok ⟨.ident, "y", ⟨2, 3⟩⟩ := by decide +kernel
  have ended : answer sampleText 8 = .ok ⟨.endOfInput, "", ⟨2, 4⟩⟩ := by decide +kernel
  refine ⟨first, by decide +kernel, by decide +kernel, last, ordered 0 7 _ _ (by decide) first (by decide) last,
    grows 5 (by decide +kernel), ?_⟩
  rw [← ended]
  exact stays 8 50 (by decide) (by rw [ended]; rfl)

end Scriptlet.Proofs.ReaderRun
