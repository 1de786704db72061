import Scriptlet.Proofs.TokenRendering

/-! Two texts joined by a line end. A line end stops every token just as the end of the text does, so the
tokens of the joined text are those of the first text and then those of the second one, further down. -/

namespace Scriptlet.Proofs.JoinedSource
open SourceScan TokenRendering

/-- The token at another place. -/
def moved (place : Position → Position) (t : Token) : Token := { t with position := place t.position }

/-- The place some lines further down. -/
def lowered (lines : Int) (p : Position) : Position := { p with line := p.line + lines }

private theorem lowered_step (lines : Int) (p : Position) (c : Char) :
    (lowered lines p).step c = lowered lines (p.step c) := by
  simp only [Position.step]
  split
  · simp only [lowered, Position.mk.injEq, and_true]
    omega
  · rfl

private theorem lowered_after (lines : Int) (p : Position) (passed : List Char) :
    (lowered lines p).after passed = lowered lines (p.after passed) := by
  induction passed generalizing p with
  | nil => rfl
  | cons c passed ih => rw [Position.after_cons, lowered_step, ih, Position.after_cons]

theorem after_lines (text : List Char) :
    Position.start.after (text ++ ['\n']) = lowered (1 + text.count '\n') .start := by
  have lines (p : Position) : (p.after text).line = p.line + text.count '\n' := by
    induction text generalizing p with
    | nil => simp
    | cons c text ih =>
      rw [Position.after_cons, ih, Position.step, List.count_cons]
      split
      next ends =>
        simp only [ends, BEq.rfl, ↓reduceIte]
        omega
      next inside =>
        simp [inside]
  rw [Position.after_append]
  simp only [Position.after_cons, Position.after_nil, Position.step, ↓reduceIte, lines, lowered, Position.start,
    Position.mk.injEq, and_true]
  omega

section Scanning
variable {text : List Char} (more : List Char)

/-- What a scan found in a text that goes on. -/
def followed (more : List Char) (found : Scan.Result) : Scan.Result := { found with rest := found.rest ++ more }

theorem blanks_cons (inComment : Bool) (c : Char) :
    (∃ within, ∀ rest, Scan.blanks inComment (c :: rest) =
      (c :: (Scan.blanks within rest).1, (Scan.blanks within rest).2)) ∨
    ∀ rest, Scan.blanks inComment (c :: rest) = ([], c :: rest) := by
  cases inComment with
  | true => exact Or.inl ⟨c != '\n', fun _ => rfl⟩
  | false =>
    by_cases space : Scan.isSpace c = true
    · exact Or.inl ⟨false, fun _ => by simp [Scan.blanks, space]⟩
    · by_cases comment : c = '#'
      · exact Or.inl ⟨true, fun _ => by simp [Scan.blanks, comment, Scan.isSpace]⟩
      · exact Or.inr fun _ => by simp [Scan.blanks, space, comment]

/-- A text of blanks is blank up to the line end, also if it ends in a comment. -/
theorem blanks_line {inComment : Bool} (blank : (Scan.blanks inComment text).2 = []) :
    Scan.blanks inComment (text ++ '\n' :: more) =
      (text ++ '\n' :: (Scan.blanks false more).1, (Scan.blanks false more).2) := by
  induction text generalizing inComment with
  | nil => cases inComment <;> rfl
  | cons c text ih =>
    rcases blanks_cons inComment c with ⟨within, passed⟩ | stopped
    · rw [passed] at blank
      rw [List.cons_append, passed, ih blank]
      rfl
    · rw [stopped] at blank
      cases blank

private theorem blanks_followed {inComment : Bool} {c : Char} {rest : List Char}
    (remaining : (Scan.blanks inComment text).2 = c :: rest) :
    Scan.blanks inComment (text ++ more) = ((Scan.blanks inComment text).1, c :: (rest ++ more)) := by
  induction text generalizing inComment with
  | nil => cases remaining
  | cons d text ih =>
    rcases blanks_cons inComment d with ⟨within, passed⟩ | stopped
    · rw [passed] at remaining
      rw [List.cons_append, passed, ih remaining, passed]
    · rw [stopped] at remaining
      cases remaining
      rw [List.cons_append, stopped, stopped]

private theorem takeWhile_line (text more : List Char) {p : Char → Bool} (stops : p '\n' = false) :
    (text ++ '\n' :: more).takeWhile p = text.takeWhile p ∧
      (text ++ '\n' :: more).dropWhile p = text.dropWhile p ++ '\n' :: more := by
  induction text with
  | nil => simp [stops]
  | cons c text ih =>
    by_cases continues : p c = true
    · simpa [continues] using ih
    · simp [continues]

private theorem digits_line (pointSeen : Bool) :
    Scan.digits pointSeen (text ++ '\n' :: more) = ((Scan.digits pointSeen text).1,
      (Scan.digits pointSeen text).2.1, (Scan.digits pointSeen text).2.2 ++ '\n' :: more) := by
  induction text generalizing pointSeen with
  | nil => rfl
  | cons c text ih =>
    simp only [List.cons_append, Scan.digits]
    split
    · simp only [ih]
    · split
      · split
        · rfl
        · simp only [ih]
      · split <;> rfl

private theorem number_line (text more : List Char) :
    Scan.number (text ++ '\n' :: more) = followed ('\n' :: more) (Scan.number text) := by
  rw [Scan.number, Scan.number, digits_line]
  rcases Scan.digits false text with ⟨passed, fault, rest⟩
  cases fault <;> rfl

private theorem word_line (text more : List Char) :
    Scan.word (text ++ '\n' :: more) = followed ('\n' :: more) (Scan.word text) := by
  obtain ⟨taken, left⟩ := takeWhile_line text more (show Scan.continuesWord '\n' = false from rfl)
  simp only [Scan.word, followed, taken, left]

theorem symbol_line (c : Char) :
    Scan.symbol c (text ++ '\n' :: more) = followed ('\n' :: more) (Scan.symbol c text) := by
  cases text with
  | nil =>
    simp only [Scan.symbol]
    split <;> rfl
  | cons d text =>
    simp only [Scan.symbol, List.cons_append]
    by_cases equals : d = '='
    · subst equals
      split <;> rfl
    · split <;> simp [followed, equals]

/-- The text of a string in a text that goes on. -/
def continued (more : List Char) (body : Scan.Body) : Scan.Body := { body with rest := body.rest ++ more }

private theorem closed_of_push {passed content : List Char} {body : Scan.Body}
    (closed : (body.push passed content).ending = .closed) : body.ending = .closed := by
  rw [Scan.Body.push] at closed
  split at closed
  · cases closed
  · exact closed

private theorem takeWhile_followed {p : Char → Bool} (stopped : text.dropWhile p ≠ []) :
    (text ++ more).takeWhile p = text.takeWhile p ∧ (text ++ more).dropWhile p = text.dropWhile p ++ more := by
  induction text with
  | nil => exact absurd rfl stopped
  | cons c text ih =>
    by_cases continues : p c = true
    · rw [List.dropWhile_cons_of_pos continues] at stopped
      simpa [continues] using ih stopped
    · simp [continues]

/-- The text behind an opening quote has a closing one, and every escape in front of it can be read. -/
inductive Closes : List Char → Prop
  | quote (rest : List Char) : Closes ('"' :: rest)
  | plain {c : Char} {rest : List Char} : c ≠ '"' → c ≠ '\\' → Closes rest → Closes (c :: rest)
  | escape {e : Char} {rest content : List Char} : Scan.escape? e = some content → Closes rest →
      Closes ('\\' :: e :: rest)
  | point {rest : List Char} {code : Char} : ¬(rest.takeWhile Scan.isHexDigit).isEmpty = true →
      Scan.codePoint? (Scan.hexValue (rest.takeWhile Scan.isHexDigit)) = some code →
      Closes (rest.dropWhile Scan.isHexDigit) → Closes ('\\' :: 'U' :: '+' :: rest)

private theorem closes_of_closed (closed : (Scan.string text).ending = .closed) : Closes text := by
  induction length : text.length using Nat.strong_induction_on generalizing text with
  | _ n ih =>
    subst length
    rw [Scan.string.eq_def] at closed
    cases text with
    | nil => cases closed
    | cons c rest =>
      dsimp only at closed
      by_cases quote : c = '"'
      · subst quote
        exact .quote rest
      rw [if_neg quote] at closed
      by_cases slash : c ≠ '\\'
      · rw [if_pos slash] at closed
        exact .plain quote slash (ih _ (by simp) (closed_of_push closed) rfl)
      rw [if_neg slash] at closed
      obtain rfl := not_not.mp slash
      cases rest with
      | nil => cases closed
      | cons e rest =>
        dsimp only at closed
        split at closed
        case h_1 content escape => exact .escape escape (ih _ (by simp +arith) (closed_of_push closed) rfl)
        case h_2 escape =>
          by_cases unicode : e ≠ 'U'
          · rw [if_pos unicode] at closed
            cases closed
          rw [if_neg unicode] at closed
          obtain rfl := not_not.mp unicode
          split at closed
          case h_2 => cases closed
          case h_1 rest =>
            split at closed
            case isTrue => cases closed
            case isFalse given =>
              split at closed
              case h_2 => cases closed
              case h_1 code valid =>
                have shorter := Scan.length_dropWhile_le Scan.isHexDigit rest
                exact .point given valid (ih _ (by simp +arith; omega) (closed_of_push closed) rfl)

private theorem string_point {code : Char} (given : ¬(text.takeWhile Scan.isHexDigit).isEmpty = true)
    (valid : Scan.codePoint? (Scan.hexValue (text.takeWhile Scan.isHexDigit)) = some code) :
    Scan.string ('\\' :: 'U' :: '+' :: text) = (Scan.string (text.dropWhile Scan.isHexDigit)).push
      ('\\' :: 'U' :: '+' :: text.takeWhile Scan.isHexDigit) [code] := by
  have unknown : Scan.escape? 'U' = none := rfl
  rw [Scan.string.eq_def]
  dsimp only
  rw [if_neg (by decide), if_neg (by decide)]
  simp only [unknown]
  rw [if_neg (by decide), if_neg given]
  simp only [valid]

theorem string_followed (closes : Closes text) :
    Scan.string (text ++ more) = continued more (Scan.string text) := by
  induction closes with
  | quote rest =>
    rw [List.cons_append, Scan.string.eq_def, Scan.string.eq_def]
    rfl
  | plain quote slash _ ih =>
    rw [List.cons_append, string_plain quote slash, string_plain quote slash, ih]
    rfl
  | escape escape _ ih =>
    rw [List.cons_append, List.cons_append, string_escape escape, string_escape escape, ih]
    rfl
  | @point rest code given valid closes ih =>
    -- The hexadecimal digits end inside the text, since the text goes on with the rest of the string.
    have stopped : rest.dropWhile Scan.isHexDigit ≠ [] := by
      intro ended
      rw [ended] at closes
      cases closes
    obtain ⟨taken, left⟩ := takeWhile_followed more stopped
    rw [string_point given valid]
    rw [← taken] at given valid
    rw [List.cons_append, List.cons_append, List.cons_append, string_point given valid, taken, left, ih]
    rfl

private theorem stringLiteral_followed {quote : Char} {kind : TokenKind} {lexeme : List Char}
    (found : (Scan.stringLiteral quote text).found = .token kind lexeme) :
    Scan.stringLiteral quote (text ++ more) = followed more (Scan.stringLiteral quote text) := by
  have closed : (Scan.string text).ending = .closed := by
    simp only [Scan.stringLiteral] at found
    split at found
    · assumption
    · cases found
    · cases found
  simp only [Scan.stringLiteral, string_followed more (closes_of_closed closed)]
  rfl

/-- A token that was read is the same with a line end and more behind the text. -/
theorem one_line {c : Char} {kind : TokenKind} {lexeme : List Char}
    (found : (Scan.one c text).found = .token kind lexeme) :
    Scan.one c (text ++ '\n' :: more) = followed ('\n' :: more) (Scan.one c text) := by
  simp only [Scan.one] at found ⊢
  split
  · exact word_line (c :: text) more
  · split
    · exact number_line (c :: text) more
    next word digit =>
      rw [if_neg word, if_neg digit] at found
      split
      next quote =>
        rw [if_pos quote] at found
        exact stringLiteral_followed _ found
      · exact symbol_line more c

end Scanning

theorem Proper.inside {word : ProgramRendering.Word} (proper : Proper word) : word.1 ≠ .endOfInput := by
  cases proper with
  | name => simp
  | reserved member => exact (reserved_facts _ member).2.1
  | number => simp
  | string => simp
  | symbol member =>
    have all : ∀ word ∈ symbols, word.1 ≠ .endOfInput := by decide
    exact all _ member

/-- The end of input is read where only blanks are left, and nowhere else. -/
theorem next_cases (r : Reader) {t : Token} (read : r.next.1 = .ok t) :
    (t.kind = .endOfInput ∧ (Scan.blanks false r.rest).2 = []) ∨
    (t.kind ≠ .endOfInput ∧ ∃ c text, (Scan.blanks false r.rest).2 = c :: text ∧
      (Scan.one c text).found = .token t.kind t.lexeme.toList) := by
  simp only [Reader.next, Reader.skipBlanks] at read
  split at read
  next ended =>
    cases read
    exact Or.inl ⟨rfl, ended⟩
  next c text remaining =>
    split at read
    next found =>
      cases read
      refine Or.inr ⟨Proper.inside (one_proper found), c, text, remaining, ?_⟩
      rw [found, String.toList_ofList]
    · cases read

variable (more : List Char)

private theorem next_line {r : Reader} {t : Token} (read : r.next.1 = .ok t) (inside : t.kind ≠ .endOfInput) :
    Reader.next ⟨r.rest ++ '\n' :: more, r.position⟩ =
      (.ok t, ⟨r.next.2.rest ++ '\n' :: more, r.next.2.position⟩) := by
  rcases next_cases r read with ⟨ended, _⟩ | ⟨_, c, text, remaining, found⟩
  · exact absurd ended inside
  · have blank := blanks_followed ('\n' :: more) remaining
    have same := one_line more found
    simp only [Reader.next, Reader.skipBlanks, remaining] at read ⊢
    simp only [blank, same, followed]
    rw [read]

private theorem next_ended {r : Reader} {t : Token} (read : r.next.1 = .ok t) (ended : t.kind = .endOfInput) :
    Reader.next ⟨r.rest ++ '\n' :: more, r.position⟩ = Reader.next ⟨more, r.position.after (r.rest ++ ['\n'])⟩ := by
  rcases next_cases r read with ⟨_, blank⟩ | ⟨inside, _⟩
  · have skipped : Reader.skipBlanks ⟨r.rest ++ '\n' :: more, r.position⟩ =
        Reader.skipBlanks ⟨more, r.position.after (r.rest ++ ['\n'])⟩ := by
      simp only [Reader.skipBlanks, blanks_line more blank, Reader.mk.injEq, true_and]
      rw [← Position.after_append, List.append_assoc]
      rfl
    simp only [Reader.next, skipped]
  · exact absurd ended inside

theorem next_after (r : Reader) : r.next.2.position.after r.next.2.rest = r.position.after r.rest := by
  have whole := Scan.blanks_passed_append_rest false r.rest
  simp only [Reader.next, Reader.skipBlanks]
  split
  next ended =>
    rw [← Position.after_append, whole]
  next c text remaining =>
    rw [← Position.after_append, Scan.one_passed_append_rest, ← remaining, ← Position.after_append, whole]

theorem tokens_line {r : Reader} {ts : List Token} (read : r.tokens = .ok ts) :
    Reader.tokens ⟨r.rest ++ '\n' :: more, r.position⟩ =
      (Reader.tokens ⟨more, r.position.after (r.rest ++ ['\n'])⟩).map (ts ++ ·) := by
  fun_induction Reader.tokens r generalizing ts with
  | case1 => cases read
  | case2 r t found ended =>
    cases read
    rw [tokens_eq, next_ended more found ended, ← tokens_eq]
    cases Reader.tokens ⟨more, r.position.after (r.rest ++ ['\n'])⟩ <;> rfl
  | case3 r t found inside ih =>
    obtain ⟨others, later, rfl⟩ := map_eq_ok read
    have same : r.next.2.position.after (r.next.2.rest ++ ['\n']) = r.position.after (r.rest ++ ['\n']) := by
      rw [Position.after_append, next_after, ← Position.after_append]
    rw [tokens_eq, next_line more found inside]
    simp only [if_neg inside, ih later, same]
    cases Reader.tokens ⟨more, r.position.after (r.rest ++ ['\n'])⟩ <;> rfl

/-- The error at another place. -/
def displaced (place : Position → Position) (e : LexicalError) : LexicalError := { e with position := place e.position }

/-- Further down in a text the same is read further down. -/
theorem next_lowered (lines : Int) (r : Reader) :
    Reader.next ⟨r.rest, lowered lines r.position⟩ =
      ((r.next.1.map (moved (lowered lines))).mapError (displaced (lowered lines)),
        ⟨r.next.2.rest, lowered lines r.next.2.position⟩) := by
  simp only [Reader.next, Reader.skipBlanks, lowered_after]
  split
  · rfl
  next c text remaining =>
    cases (Scan.one c text).found <;> rfl

private theorem tokens_lowered (lines : Int) (r : Reader) :
    Reader.tokens ⟨r.rest, lowered lines r.position⟩ =
      (r.tokens.map (·.map (moved (lowered lines)))).mapError (displaced (lowered lines)) := by
  fun_induction Reader.tokens r with
  | case1 r e failed =>
    rw [tokens_eq, next_lowered, failed]
    rfl
  | case2 r t found ended =>
    rw [tokens_eq, next_lowered, found]
    exact if_pos ended
  | case3 r t found inside ih =>
    rw [tokens_eq, next_lowered, found]
    simp only [Except.map, Except.mapError, moved, inside, ↓reduceIte, ih]
    cases r.next.2.tokens <;> rfl

/-- What is read from two texts joined by a line end, if the first can be read. -/
theorem tokenize_line {first : String} {ts : List Token} (before : tokenize first = .ok ts) (second : String) :
    tokenize (first ++ "\n" ++ second) =
      (((tokenize second).map (·.map (moved (lowered (1 + first.toList.count '\n'))))).mapError
        (displaced (lowered (1 + first.toList.count '\n')))).map (ts ++ ·) := by
  have whole : (first ++ "\n" ++ second).toList = first.toList ++ '\n' :: second.toList := by
    simp
  have lower := tokens_lowered (1 + first.toList.count '\n') (Reader.ofText second)
  have joined := tokens_line second.toList before
  simp only [Reader.ofText, after_lines] at lower joined
  rw [tokenize, Reader.ofText, whole, joined, lower]
  rfl

theorem tokenize_joined {first second : String} {ts others : List Token} (before : tokenize first = .ok ts)
    (after : tokenize second = .ok others) :
    tokenize (first ++ "\n" ++ second) =
      .ok (ts ++ others.map (moved (lowered (1 + first.toList.count '\n')))) := by
  rw [tokenize_line before, after]
  rfl

/-- Behind a text that can be read, a line end and a second text are read as the second text alone, only further
down. This goes for the tokens of the second text and for an error in it. -/
theorem second_text_read_as_alone {first second : String} {ts : List Token} (before : tokenize first = .ok ts) :
    (∀ others, tokenize second = .ok others →
      tokenize (first ++ "\n" ++ second) =
        .ok (ts ++ others.map fun t =>
          { t with position := ⟨t.position.line + (1 + first.toList.count '\n'), t.position.col⟩ })) ∧
    ∀ e, tokenize second = .error e →
      tokenize (first ++ "\n" ++ second) =
        .error { e with position := ⟨e.position.line + (1 + first.toList.count '\n'), e.position.col⟩ } := by
  refine ⟨fun others after => tokenize_joined before after, fun e failed => ?_⟩
  rw [tokenize_line before, failed]
  rfl

/-- The first text has a line end in a string and ends in a comment, and the second text starts in the middle of a
line. -/
theorem sampleLines_read_as_alone :
    tokenize "x = \"a\nb\" # 1." = .ok [⟨.ident, "x", ⟨1, 1⟩⟩, ⟨.assign, "=", ⟨1, 3⟩⟩, ⟨.string, "a\nb", ⟨1, 5⟩⟩] ∧
    tokenize "  y" = .ok [⟨.ident, "y", ⟨1, 3⟩⟩] ∧
    tokenize ("x = \"a\nb\" # 1." ++ "\n" ++ "  y") = .ok [⟨.ident, "x", ⟨1, 1⟩⟩, ⟨.assign, "=", ⟨1, 3⟩⟩,
      ⟨.string, "a\nb", ⟨1, 5⟩⟩, ⟨.ident, "y", ⟨3, 3⟩⟩] ∧
    tokenize "\n?" = .error ⟨.unknownCharacter '?', ⟨2, 1⟩⟩ ∧
    tokenize ("x = \"a\nb\" # 1." ++ "\n" ++ "\n?") = .error ⟨.unknownCharacter '?', ⟨4, 1⟩⟩ := by
  have before : tokenize "x = \"a\nb\" # 1." =
      .ok [⟨.ident, "x", ⟨1, 1⟩⟩, ⟨.assign, "=", ⟨1, 3⟩⟩, ⟨.string, "a\nb", ⟨1, 5⟩⟩] := by decide +kernel
  have after : tokenize "  y" = .ok [⟨.ident, "y", ⟨1, 3⟩⟩] := by decide +kernel
  have failed : tokenize "\n?" = .error ⟨.unknownCharacter '?', ⟨2, 1⟩⟩ := by decide +kernel
  exact ⟨before, after, (second_text_read_as_alone before).1 _ after, failed,
    (second_text_read_as_alone before).2 _ failed⟩

end Scriptlet.Proofs.JoinedSource
