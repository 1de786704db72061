import Scriptlet.Proofs.FedLines
import Scriptlet.Proofs.ReaderRun

/-! A block over several lines. The console counts the braces of each line with a small scanner of its own, the language
reads tokens. The two agree on a line that starts outside a string, so a block whose strings each stand on one line is
kept until its last brace is closed. But the console's scanner does not remember a string from one line to the next. -/

namespace Scriptlet.Proofs.OpenBlock
open Console ConsoleState FedLines JoinedSource TokenRendering ReaderRun

/-- By how many the opening braces among some tokens are more than the closing ones. -/
def surplus (ts : List Token) : Int := ts.countP (·.kind = .openBrace) - ts.countP (·.kind = .closeBrace)

/-- What a token of a kind does to the number of open braces. -/
def change (kind : TokenKind) : Int := if kind = .openBrace then 1 else if kind = .closeBrace then -1 else 0

private theorem surplus_cons (t : Token) (ts : List Token) : surplus (t :: ts) = change t.kind + surplus ts := by
  rw [surplus, surplus, change, List.countP_cons, List.countP_cons]
  by_cases opens : t.kind = .openBrace
  · simp only [opens, decide_true, ↓reduceIte, reduceCtorEq, decide_false, Bool.false_eq_true]
    omega
  · by_cases closes : t.kind = .closeBrace
    · simp only [closes, decide_true, ↓reduceIte, reduceCtorEq, decide_false, Bool.false_eq_true]
      omega
    · simp only [opens, closes, decide_false, ↓reduceIte, Bool.false_eq_true]
      omega

private theorem surplus_append (ts others : List Token) : surplus (ts ++ others) = surplus ts + surplus others := by
  simp only [surplus, List.countP_append]
  omega

/-- The tokens at the front of what is left of a text, in front of which some characters were passed. -/
inductive Lexed : List Char → List Char → List Token → Prop where
  | nil {passed blank : List Char} {inComment : Bool} (skipped : Blank false blank inComment) : Lexed passed blank []
  | cons {passed blank chars rest : List Char} {t : Token} {ts : List Token} (skipped : Blank false blank false)
      (spelled : Spelled t.kind t.lexeme.toList chars) (place : t.position = placeBehind (passed ++ blank))
      (more : Lexed (passed ++ blank ++ chars) rest ts) : Lexed passed (blank ++ (chars ++ rest)) (t :: ts)

private theorem lexed_of_tokens {r : Reader} {ts : List Token} {passed : List Char}
    (placed : r.position = placeBehind passed)
    (read : r.tokens = .ok ts) : Lexed passed r.rest ts := by
  fun_induction Reader.tokens r generalizing ts passed with
  | case1 => cases read
  | case2 r t found ended =>
    cases read
    have answers := next_answers placed
    rw [found] at answers
    obtain ⟨_, _, _, skipped⟩ := answers.token_cases.resolve_right fun inside => inside.1 ended
    exact .nil skipped
  | case3 r t found inside ih =>
    obtain ⟨others, later, rfl⟩ := map_eq_ok read
    have answers := next_answers placed
    rw [found] at answers
    obtain ⟨_, blank, chars, split, skipped, spelled, place⟩ :=
      answers.token_cases.resolve_left fun ended => inside ended.1
    obtain ⟨taken, parts, next⟩ := next_taken r
    have same : taken = blank ++ chars := by
      rw [split, ← List.append_assoc] at parts
      exact (List.append_cancel_right parts).symm
    rw [split]
    refine .cons skipped spelled place (ih ?_ later)
    rw [next, placed, ← placeBehind_append, same, List.append_assoc]

theorem lexed_of_tokenize {source : String} {ts : List Token} (read : tokenize source = .ok ts) :
    Lexed [] source.toList ts := lexed_of_tokens rfl read

section Lines
variable {passed rest : List Char} {ts : List Token}

theorem Lexed.line (lexed : Lexed passed rest ts) : ∀ t ∈ ts,
    1 + (passed.count '\n' : Int) ≤ t.position.line ∧ t.position.line ≤ 1 + ((passed ++ rest).count '\n' : Int) := by
  induction lexed with
  | nil => simp
  | @cons passed blank chars rest t ts _ _ place _ ih =>
    simp only [List.count_append] at ih ⊢
    refine List.forall_mem_cons.mpr ⟨?_, fun t member => ?_⟩
    · simp only [place, placeBehind, List.count_append]
      omega
    · have bounds := ih t member
      omega

/-- The characters that the console's scanner looks for outside strings. -/
def marks : List Char := ['#', '"', '\x7b', '\x7d']

private theorem countBraces_plain {chars : List Char} (plain : ∀ c ∈ chars, c ∉ marks) (depth : Int)
    (rest : List Char) :
    countBraces false false depth (chars ++ rest) = countBraces false false depth rest := by
  induction chars with
  | nil => rfl
  | cons c chars ih =>
    obtain ⟨first, others⟩ := List.forall_mem_cons.mp plain
    simp only [marks, List.mem_cons, List.not_mem_nil, or_false, not_or] at first
    obtain ⟨comment, quote, opens, closes⟩ := first
    rw [← ih others]
    simp [countBraces]

/-- None of the characters that are looked for belongs to a class in which none of them is. -/
theorem not_mark {p : Char → Bool} (apart : marks.any p = false) {c : Char} (member : p c = true) : c ∉ marks := by
  intro mark
  rw [List.any_eq_false] at apart
  exact apart c mark member

theorem Blank.ends_inside {chars : List Char} {ends : Bool} (skipped : Blank true chars ends)
    (single : '\n' ∉ chars) : ends = true := by
  generalize starts : true = inside at skipped
  induction skipped with
  | nil => rfl
  | space | comment => cases starts
  | inside _ _ ih => exact ih (fun member => single (List.mem_cons_of_mem _ member)) rfl
  | close => exact absurd List.mem_cons_self single

private theorem countBraces_blank {blank : List Char} {ends : Bool} (skipped : Blank false blank ends)
    (single : '\n' ∉ blank)
    (depth : Int) (rest : List Char) :
    countBraces false false depth (blank ++ rest) = if ends then depth else countBraces false false depth rest := by
  generalize outside : false = inComment at skipped
  induction skipped with
  | nil =>
    subst outside
    rfl
  | @space c chars ends space _ ih =>
    have plain : ∀ d ∈ [c], d ∉ marks := by simpa using not_mark (by decide) space
    rw [← ih (fun member => single (List.mem_cons_of_mem _ member)) rfl]
    exact countBraces_plain plain depth (chars ++ rest)
  | comment more =>
    rw [Blank.ends_inside more fun member => single (List.mem_cons_of_mem _ member)]
    rfl
  | inside | close => cases outside

/-- Inside a string the console's scanner passes everything but a quote and a backslash. -/
theorem countBraces_inside {chars : List Char} (plain : ∀ c ∈ chars, c ≠ '"' ∧ c ≠ '\\') (depth : Int)
    (rest : List Char) : countBraces true false depth (chars ++ rest) = countBraces true false depth rest := by
  induction chars with
  | nil => rfl
  | cons c chars ih =>
    obtain ⟨⟨quote, slash⟩, others⟩ := List.forall_mem_cons.mp plain
    rw [← ih others]
    simp [countBraces, slash, bne_iff_ne.mpr quote]

private theorem countBraces_string {body content : List Char} (denotes : Denotes body content) (depth : Int)
    (rest : List Char) : countBraces true false depth (body ++ '"' :: rest) = countBraces false false depth rest := by
  induction denotes with
  | nil => rfl
  | @plain c chars content quote slash _ ih =>
    have front : ∀ d ∈ [c], d ≠ '"' ∧ d ≠ '\\' := by simpa using ⟨quote, slash⟩
    rw [← ih]
    exact countBraces_inside front depth (chars ++ '"' :: rest)
  | escape _ _ ih => exact ih
  | @point digits chars content code _ hex _ _ _ ih =>
    have plain : ∀ d ∈ '+' :: digits, d ≠ '"' ∧ d ≠ '\\' := by
      refine List.forall_mem_cons.mpr ⟨by decide, fun d member => ?_⟩
      constructor <;> rintro rfl <;> exact absurd (hex _ member) (by decide)
    rw [← ih, ← countBraces_inside plain depth (chars ++ '"' :: rest)]
    simp only [List.cons_append, List.append_assoc]
    rfl

private theorem change_ofWord (name : String) : change (.ofWord name) = 0 := by
  rcases ofWord_cases name with member | ⟨ident, _⟩
  · have all : ∀ word ∈ reserved, change word.1 = 0 := by decide
    exact all _ member
  · rw [ident]
    rfl

private theorem countBraces_symbol :
    ∀ word ∈ symbols, ∀ depth rest, countBraces false false depth (word.2.toList ++ rest) =
    countBraces false false (depth + change word.1) rest := by
  have kinds : ∀ word ∈ symbols, word.2.toList.all (fun c => !marks.contains c) = true ∧ change word.1 = 0 ∨
      word = (.openBrace, "\x7b") ∨ word = (.closeBrace, "\x7d") := by decide
  intro word member depth rest
  rcases kinds word member with ⟨plain, still⟩ | rfl | rfl
  · rw [still, Int.add_zero]
    apply countBraces_plain
    intro c inside
    simpa using List.all_eq_true.mp plain c inside
  · rfl
  · rfl

theorem countBraces_token {kind : TokenKind} {lexeme chars : List Char} (spelled : Spelled kind lexeme chars)
    (depth : Int) (rest : List Char) :
    countBraces false false depth (chars ++ rest) = countBraces false false (depth + change kind) rest := by
  cases spelled with
  | @word first more starts continues =>
    rw [change_ofWord, Int.add_zero]
    apply countBraces_plain
    refine List.forall_mem_cons.mpr ⟨not_mark (by decide) starts, fun c member => ?_⟩
    exact not_mark (by decide) (continues c member)
  | @number digit more first others =>
    rw [show change .number = 0 from rfl, Int.add_zero]
    apply countBraces_plain
    refine List.forall_mem_cons.mpr ⟨not_mark (by decide) first, fun c member => ?_⟩
    rcases others c member with digit | rfl | rfl
    · exact not_mark (by decide) digit
    · decide
    · decide
  | @string body content denotes =>
    rw [show change .string = 0 from rfl, Int.add_zero, ← countBraces_string denotes depth rest]
    simp only [List.cons_append, List.append_assoc]
    rfl
  | symbol member =>
    have counted := countBraces_symbol _ member depth rest
    rwa [String.toList_ofList] at counted

/-- The two scanners agree on a line that starts outside a string. -/
theorem Lexed.countBraces (lexed : Lexed passed rest ts) (single : '\n' ∉ rest) (depth : Int) :
    countBraces false false depth rest = depth + surplus ts := by
  induction lexed generalizing depth with
  | @nil passed blank inComment skipped =>
    have counted := countBraces_blank skipped single depth []
    rw [List.append_nil] at counted
    rw [counted]
    cases inComment with
    | true => simp [surplus]
    | false => simp [surplus, Console.countBraces]
  | @cons passed blank chars rest t ts skipped spelled _ _ ih =>
    rw [List.mem_append, List.mem_append, not_or, not_or] at single
    rw [countBraces_blank skipped single.1, if_neg Bool.false_ne_true, countBraces_token spelled, ih single.2.2,
      surplus_cons, Int.add_assoc]

/-- A character changes the count by one at most. -/
theorem countBraces_near (inString escaped : Bool) (depth : Int) (chars : List Char) :
    depth - chars.length ≤ countBraces inString escaped depth chars ∧
      countBraces inString escaped depth chars ≤ depth + chars.length := by
  induction chars generalizing inString escaped depth with
  | nil => simp [Console.countBraces]
  | cons c chars ih =>
    have closer : ∀ inString escaped next, depth - 1 ≤ next → next ≤ depth + 1 →
        depth - ((c :: chars).length : Nat) ≤ Console.countBraces inString escaped next chars ∧
          Console.countBraces inString escaped next chars ≤ depth + ((c :: chars).length : Nat) := by
      intro inString escaped next low high
      have bounds := ih inString escaped next
      rw [List.length_cons]
      omega
    rw [Console.countBraces.eq_def]
    dsimp only
    split
    · split
      · exact closer _ _ _ (by omega) (by omega)
      · split
        · exact closer _ _ _ (by omega) (by omega)
        · exact closer _ _ _ (by omega) (by omega)
    · split
      · omega
      all_goals exact closer _ _ _ (by omega) (by omega)

/-- On a line that can be read, the console's number of open braces is that of the tokens, with nothing below zero. If
the depth before the line and the length of the line together fit into 64 bits, so does every count on the way. -/
theorem open_braces_agree_with_tokens (depth : Int) (line : String) (ts : List Token) (single : '\n' ∉ line.toList)
    (read : tokenize line = .ok ts) :
    (openBraces depth line : Int) =
      max (depth + ts.countP (·.kind = .openBrace) - ts.countP (·.kind = .closeBrace)) 0 ∧
    (0 ≤ depth → depth + line.toList.length < 2 ^ 63 → ∀ front, front <+: line.toList →
      -2 ^ 63 ≤ countBraces false false depth front ∧ countBraces false false depth front < 2 ^ 63) := by
  constructor
  · have counted := (lexed_of_tokenize read).countBraces single depth
    rw [openBraces, counted, surplus, Int.ofNat_toNat]
    omega
  · intro started fits front beginning
    have bounds := countBraces_near false false depth front
    have shorter := beginning.length_le
    omega

/-- Quotes and braces behind backslashes, and a brace in a comment. -/
def sampleLine : String := "\x7d print(\"\\\"\x7d\\U+7d\") \x7b f() \x7b # \x7d"

theorem sampleLine_agrees : ∃ ts, tokenize sampleLine = .ok ts ∧ '\n' ∉ sampleLine.toList ∧
    (openBraces 3 sampleLine : Int) =
      max ((3 : Int) + ts.countP (·.kind = .openBrace) - ts.countP (·.kind = .closeBrace)) 0 ∧
    openBraces 3 sampleLine = 4 ∧ ∀ front, front <+: sampleLine.toList →
      -2 ^ 63 ≤ countBraces false false 3 front ∧ countBraces false false 3 front < 2 ^ 63 := by
  have given : (tokenize sampleLine).toOption.isSome = true := by decide +kernel
  obtain ⟨ts, read⟩ := Option.isSome_iff_exists.mp given
  have read := ok_of_toOption read
  have single : '\n' ∉ sampleLine.toList := by decide +kernel
  obtain ⟨counted, bounded⟩ := open_braces_agree_with_tokens 3 sampleLine ts single read
  exact ⟨ts, read, single, counted, by decide +kernel, bounded (by decide) (by decide +kernel)⟩

/-- The characters that start neither a word nor a number, but another token. -/
def signs : List Char := ['"', '=', '+', '-', '*', '/', '!', '<', '>', '(', ')', '\x7b', '\x7d', ',', '.']

/-- The characters that a token can start with. -/
def startsToken (c : Char) : Bool := Scan.startsWord c || Number.isDigit c || signs.contains c

theorem Spelled.first {kind : TokenKind} {lexeme chars : List Char} {c : Char}
    (spelled : Spelled kind lexeme (c :: chars)) : startsToken c = true := by
  generalize whole : c :: chars = written at spelled
  cases spelled with
  | word starts =>
    cases whole
    simp [startsToken, starts]
  | number first =>
    cases whole
    simp [startsToken, first]
  | string =>
    cases whole
    decide
  | symbol member =>
    have all : ∀ word ∈ symbols, word.2.toList.head?.all startsToken = true := by decide
    have given := all _ member
    rw [String.toList_ofList, ← whole] at given
    exact given

theorem startsToken_code {c : Char} (starts : startsToken c = true) : 33 ≤ c.toNat ∧ c.toNat ≤ 126 := by
  simp only [startsToken, Bool.or_eq_true, List.contains_iff_mem] at starts
  rcases starts with (word | digit) | sign
  · simp only [Scan.startsWord, Scan.isLetter, Bool.or_eq_true, Bool.and_eq_true, decide_eq_true_eq, beq_iff_eq] at word
    rcases word with (⟨low, high⟩ | ⟨low, high⟩) | rfl
    · have low : 97 ≤ c.toNat := low
      have high : c.toNat ≤ 122 := high
      omega
    · have low : 65 ≤ c.toNat := low
      have high : c.toNat ≤ 90 := high
      omega
    · decide
  · simp only [Number.isDigit, Bool.and_eq_true, decide_eq_true_eq] at digit
    have low : 48 ≤ c.toNat := digit.1
    have high : c.toNat ≤ 57 := digit.2
    omega
  · have all : signs.all (fun c => decide (33 ≤ c.toNat ∧ c.toNat ≤ 126)) = true := by decide
    simpa using List.all_eq_true.mp all c sign

private theorem blank_starts_no_token {c : Char} (blank : Text.isBlank c = true) : startsToken c = false := by
  rw [← Bool.not_eq_true]
  intro starts
  have code := startsToken_code starts
  simp only [Text.isBlank, Bool.or_eq_true, Bool.and_eq_true, decide_eq_true_eq, beq_iff_eq] at blank
  omega

private theorem space_blank {c : Char} (space : Scan.isSpace c = true) : Text.isBlank c = true := by
  simp only [Scan.isSpace, Bool.or_eq_true, beq_iff_eq] at space
  rcases space with ((rfl | rfl) | rfl) | rfl <;> decide

variable {c : Char} {text : List Char}

theorem Lexed.first (lexed : Lexed passed (c :: text) ts) :
    Scan.isSpace c = true ∨ c = '#' ∨ startsToken c = true := by
  generalize whole : c :: text = left at lexed
  cases lexed with
  | nil skipped =>
    subst whole
    cases skipped with
    | space space => exact Or.inl space
    | comment => exact Or.inr (Or.inl rfl)
  | @cons _ blank chars _ _ _ skipped spelled =>
    cases skipped with
    | nil =>
      cases chars with
      | nil => exact absurd rfl spelled.ne_nil
      | cons d chars =>
        cases whole
        exact Or.inr (Or.inr (Spelled.first spelled))
    | space space =>
      cases whole
      exact Or.inl space
    | comment =>
      cases whole
      exact Or.inr (Or.inl rfl)

theorem Lexed.tail (lexed : Lexed passed (c :: text) ts) (space : Scan.isSpace c = true) :
    Lexed (passed ++ [c]) text ts := by
  generalize whole : c :: text = left at lexed
  cases lexed with
  | nil skipped =>
    subst whole
    cases skipped with
    | space _ more => exact .nil more
    | comment => cases space
  | @cons _ blank chars rest t others skipped spelled place more =>
    cases skipped with
    | nil =>
      cases chars with
      | nil => exact absurd rfl spelled.ne_nil
      | cons d chars =>
        cases whole
        have starts := Spelled.first spelled
        rw [blank_starts_no_token (space_blank space)] at starts
        cases starts
    | @space d blank _ _ skipped =>
      cases whole
      refine .cons skipped spelled ?_ ?_
      · rw [place, List.append_assoc, List.singleton_append]
      · simpa using more
    | comment =>
      cases whole
      cases space

theorem Lexed.no_colon {blank more : List Char} (blanks : ∀ c ∈ blank, Text.isBlank c = true) :
    ¬Lexed passed (blank ++ ':' :: more) ts := by
  induction blank generalizing passed with
  | nil =>
    intro lexed
    rcases lexed.first with space | comment | starts
    · cases space
    · cases comment
    · cases starts
  | cons c blank ih =>
    obtain ⟨first, others⟩ := List.forall_mem_cons.mp blanks
    intro lexed
    rcases lexed.first with space | rfl | starts
    · exact ih others (lexed.tail space)
    · cases first
    · rw [blank_starts_no_token first] at starts
      cases starts

private theorem not_command {line : String} (read : tokenize line = .ok ts) :
    (trimmed line).startsWith ":" = false := by
  rw [← Bool.not_eq_true]
  intro colon
  obtain ⟨rest, whole⟩ := (colon_iff _).mp colon
  have front : Text.trim line.toList <+: line.toList.dropWhile Text.isBlank := by
    have back := List.dropWhile_suffix Text.isBlank (l := (line.toList.dropWhile Text.isBlank).reverse)
    have turned := List.reverse_prefix.mpr back
    rwa [List.reverse_reverse] at turned
  rw [trimmed, String.toList_ofList] at whole
  rw [whole] at front
  obtain ⟨more, split⟩ := front
  have lexed := lexed_of_tokenize read
  rw [← List.takeWhile_append_dropWhile (p := Text.isBlank) (l := line.toList), ← split] at lexed
  exact Lexed.no_colon (fun c member => List.mem_takeWhile_imp member) lexed

end Lines

/-- Lines as one text, with a line end between two of them. -/
def joined (lines : List String) : String := "\n".intercalate lines

/-- The tokens that start on the first lines. -/
def startedBy (i : Nat) (ts : List Token) : List Token := ts.filter (·.position.line ≤ i)

/-- Of the braces that start on the first lines more are opening than closing ones. -/
def OpenBehind (i : Nat) (ts : List Token) : Prop :=
  (startedBy i ts).countP (·.kind = .closeBrace) < (startedBy i ts).countP (·.kind = .openBrace)

instance (i : Nat) (ts : List Token) : Decidable (OpenBehind i ts) := inferInstanceAs (Decidable (_ < _))

private theorem openBehind_iff {i : Nat} {ts : List Token} : OpenBehind i ts ↔ 0 < surplus (startedBy i ts) := by
  rw [OpenBehind, surplus]
  omega

private theorem openBehind_of_two {ts : List Token} (once : OpenBehind 1 ts) (twice : OpenBehind 2 ts) {i : Nat}
    (some : 0 < i)
    (inside : i < 3) : OpenBehind i ts := by
  obtain rfl | rfl : i = 1 ∨ i = 2 := by omega
  · exact once
  · exact twice

section Joined
variable {lines before after : List String} {line : String} {ts front : List Token}

private theorem joined_cons (line : String) (some : lines ≠ []) :
    joined (line :: lines) = line ++ "\n" ++ joined lines := by
  cases lines with
  | nil => exact absurd rfl some
  | cons next lines => exact String.intercalate_cons_cons

private theorem joined_append (some : before ≠ []) (more : after ≠ []) :
    joined (before ++ after) = joined before ++ "\n" ++ joined after := by
  induction before with
  | nil => exact absurd rfl some
  | cons line before ih =>
    rw [List.cons_append, joined_cons line (by simp [more])]
    cases before with
    | nil => rfl
    | cons next before =>
      rw [ih (by simp), joined_cons line (by simp)]
      simp only [String.append_assoc]

/-- A line end stands between two lines and nowhere else. -/
theorem count_joined (single : ∀ line ∈ lines, '\n' ∉ line.toList) (some : lines ≠ []) :
    (joined lines).toList.count '\n' + 1 = lines.length := by
  induction lines with
  | nil => exact absurd rfl some
  | cons line lines ih =>
    obtain ⟨first, others⟩ := List.forall_mem_cons.mp single
    cases lines with
    | nil => simpa [joined] using List.count_eq_zero.mpr first
    | cons next lines =>
      rw [joined_cons line (by simp), String.toList_append, String.toList_append, List.count_append, List.count_append,
        List.count_eq_zero.mpr first, List.length_cons, ← ih others (by simp)]
      simp +arith

/-- Where the first lines can be read for themselves, their tokens are those of the whole text that start there. -/
theorem tokens_of_first (single : ∀ line ∈ before, '\n' ∉ line.toList) (some : before ≠ []) (more : after ≠ [])
    (first : tokenize (joined before) = .ok front) (whole : tokenize (joined (before ++ after)) = .ok ts) :
    startedBy before.length ts = front ∧
      ∃ others, ts = front ++ others ∧ Lexed ((joined before).toList ++ ['\n']) (joined after).toList others := by
  have text : (joined (before ++ after)).toList = (joined before).toList ++ '\n' :: (joined after).toList := by
    rw [joined_append some more]
    simp
  have lines := count_joined single some
  have split := tokens_line (joined after).toList first
  rw [tokenize, Reader.ofText, text] at whole
  simp only [Reader.ofText] at split
  rw [split, start_after] at whole
  obtain ⟨others, read, rfl⟩ := map_eq_ok whole
  have lexed := lexed_of_tokens rfl read
  refine ⟨?_, others, rfl, lexed⟩
  have upper : ∀ t ∈ front, decide (t.position.line ≤ before.length) = true := by
    intro t member
    have bounds := (lexed_of_tokenize first).line t member
    rw [List.nil_append] at bounds
    exact decide_eq_true (by omega)
  have lower : ∀ t ∈ others, ¬decide (t.position.line ≤ before.length) = true := by
    intro t member
    have bounds := lexed.line t member
    simp only [List.count_append, List.count_singleton_self] at bounds
    simp only [decide_eq_true_eq]
    omega
  rw [startedBy, List.filter_append, List.filter_eq_self.mpr upper, List.filter_eq_nil_iff.mpr lower, List.append_nil]

private theorem tokenize_nothing : tokenize (joined []) = .ok [] := by
  rw [tokenize, SourceScan.tokens_eq]
  rfl

/-- From line to line the console counts the braces of the text so far. -/
theorem countBraces_next (single : ∀ other ∈ before ++ [line], '\n' ∉ other.toList)
    (first : tokenize (joined before) = .ok front) (next : tokenize (joined (before ++ [line])) = .ok ts) :
    countBraces false false (surplus front) line.toList = surplus ts := by
  have earlier : ∀ line ∈ before, '\n' ∉ line.toList := fun other member => single other (List.mem_append_left _ member)
  have last : '\n' ∉ line.toList := single line (by simp)
  by_cases some : before = []
  · subst some
    rw [tokenize_nothing] at first
    cases first
    have counted := (lexed_of_tokenize next).countBraces last 0
    rwa [Int.zero_add] at counted
  · obtain ⟨_, others, rfl, lexed⟩ := tokens_of_first earlier some (List.cons_ne_nil line []) first next
    rw [surplus_append]
    exact lexed.countBraces last (surplus front)

end Joined

/-- The number of open braces that the console counts behind some lines. -/
def depthAfter (depth : Nat) (lines : List String) : Nat := lines.foldl (fun d line => openBraces d line) depth

section Feeding
variable {input : Input} {line : String} {lines : List String}

private theorem feed_open (typing : Typing input) (free : input.held = false) (plain : ¬Commands input line)
    (opened : 0 < openBraces input.depth line) : input.feed line =
      ({ input with lines := input.lines ++ [line], depth := openBraces input.depth line }, []) := by
  rw [feed_joining typing.mode (by simp [free]), feedLine_plain plain]
  dsimp only
  rw [if_pos opened, free]

/-- Lines are kept as long as a brace is open behind each of them. -/
theorem feedAll_open (typing : Typing input) (free : input.held = false)
    (plain : ∀ line ∈ lines.head?, ¬Commands input line)
    (opened : ∀ i, 0 < i → i ≤ lines.length → 0 < depthAfter input.depth (lines.take i)) :
    feedAll input lines =
      ({ input with lines := input.lines ++ lines, depth := depthAfter input.depth lines }, []) := by
  induction lines generalizing input with
  | nil =>
    rw [List.append_nil]
    rfl
  | cons line lines ih =>
    have now : 0 < openBraces input.depth line := opened 1 (by simp) (by simp)
    have later := @ih { input with lines := input.lines ++ [line], depth := openBraces input.depth line }
      ⟨typing.mode, typing.pasted⟩ free
      (fun next _ commands => absurd commands.depth (Nat.pos_iff_ne_zero.mp now))
      (fun i _ inside => opened (i + 1) (by omega) (by simpa using inside))
    rw [feedAll, feed_open typing free (plain line rfl) now]
    dsimp only
    rw [later, List.append_assoc]
    rfl

private theorem feedAll_append (input : Input) (lines others : List String) : feedAll input (lines ++ others) =
    ((feedAll (feedAll input lines).1 others).1,
      (feedAll input lines).2 ++ (feedAll (feedAll input lines).1 others).2) := by
  induction lines generalizing input with
  | nil => rfl
  | cons line lines ih => simp only [List.cons_append, feedAll, ih, List.append_assoc]

private theorem openBraces_blank (blank : isBlankText line = true) : openBraces 0 line = 0 := by
  have plain : ∀ c ∈ line.toList, c ∉ marks :=
    fun c member => not_mark (by decide) (List.all_eq_true.mp blank c member)
  have counted := countBraces_plain plain 0 []
  rw [List.append_nil] at counted
  rw [openBraces, counted]
  rfl

end Feeding

/-- Lines that can be read, also up to each line end, and behind each of which but the last one a brace is open. -/
structure OpenLines (lines : List String) (ts : List Token) : Prop where
  single : ∀ line ∈ lines, '\n' ∉ line.toList
  whole : tokenize (joined lines) = .ok ts
  opened : ∀ i, 0 < i → i < lines.length → OpenBehind i ts
  parted : ∀ i, 0 < i → i < lines.length → ∃ front, tokenize (joined (lines.take i)) = .ok front

section Blocks
variable {lines before : List String} {last : String} {ts : List Token} {i : Nat}

theorem OpenLines.depthAfter_eq (block : OpenLines lines ts) (inside : i < lines.length) :
    ∃ front, tokenize (joined (lines.take i)) = .ok front ∧
      (depthAfter 0 (lines.take i) : Int) = surplus front ∧ (0 < i → 0 < surplus front) := by
  induction i with
  | zero => exact ⟨[], tokenize_nothing, rfl, by simp⟩
  | succ i ih =>
    obtain ⟨front, first, depth, _⟩ := ih (by omega)
    obtain ⟨next, read⟩ := block.parted (i + 1) (by omega) inside
    have cut : lines.take (i + 1) = lines.take i ++ [lines[i]] := List.take_succ_eq_append_getElem (by omega)
    have single : ∀ line ∈ lines.take (i + 1), '\n' ∉ line.toList :=
      fun line member => block.single line (List.mem_of_mem_take member)
    have some : lines.take (i + 1) ≠ [] := cut ▸ List.append_ne_nil_of_right_ne_nil _ (List.cons_ne_nil _ _)
    have more : lines.drop (i + 1) ≠ [] := by simpa using inside
    have shown : startedBy (i + 1) ts = next := by
      have whole := block.whole
      rw [← List.take_append_drop (i + 1) lines] at whole
      have given := (tokens_of_first single some more read whole).1
      rwa [List.length_take_of_le (Nat.le_of_lt inside)] at given
    have positive : 0 < surplus next := shown ▸ openBehind_iff.mp (block.opened (i + 1) (by omega) inside)
    have counted := countBraces_next (cut ▸ single) first (cut ▸ read)
    refine ⟨next, read, ?_, fun _ => positive⟩
    rw [cut, depthAfter, List.foldl_append]
    change ((openBraces (depthAfter 0 (lines.take i)) lines[i] : Nat) : Int) = _
    rw [openBraces, depth, counted]
    omega

theorem OpenLines.depthAfter_pos (block : OpenLines lines ts) (some : 0 < i) (inside : i < lines.length) :
    0 < depthAfter 0 (lines.take i) := by
  obtain ⟨front, _, depth, positive⟩ := block.depthAfter_eq inside
  have positive := positive some
  omega

theorem OpenLines.first_not_command (block : OpenLines lines ts) :
    ∀ line ∈ lines.dropLast.head?, ¬Commands {} line := by
  intro line member commands
  obtain ⟨first, second, others, rfl⟩ : ∃ first second others, lines = first :: second :: others := by
    cases lines with
    | nil => cases member
    | cons first lines =>
      cases lines with
      | nil => cases member
      | cons second others => exact ⟨first, second, others, rfl⟩
  cases member
  obtain ⟨front, read⟩ := block.parted 1 (by simp) (by simp)
  have plain := not_command (show tokenize line = .ok front from read)
  rw [commands.colon] at plain
  cases plain

theorem OpenLines.kept (block : OpenLines lines ts) :
    feedAll {} lines.dropLast = ({ lines := lines.dropLast, depth := depthAfter 0 lines.dropLast }, []) := by
  have opened : ∀ i, 0 < i → i ≤ lines.dropLast.length → 0 < depthAfter 0 (lines.dropLast.take i) := by
    intro i some inside
    rw [List.length_dropLast] at inside
    rw [List.dropLast_eq_take, List.take_take, min_eq_left inside]
    exact block.depthAfter_pos some (by omega)
  have kept : feedAll {} lines.dropLast = _ := feedAll_open ⟨rfl, rfl⟩ rfl block.first_not_command opened
  rwa [List.nil_append] at kept

private theorem feed_closing {input : Input} {line : String} (typing : Typing input) (free : input.held = false)
    (depth : 0 < input.depth) (closed : openBraces input.depth line = 0)
    (some : isBlankText (textOf (input.lines ++ [line])) = false) : input.feed line =
      if endsWithIf (textOf (input.lines ++ [line])) then
        ({ lines := input.lines ++ [line], held := true }, [])
      else ({}, [runLines (input.lines ++ [line])]) := by
  obtain ⟨kept, _, _, _, _⟩ := input
  obtain ⟨rfl, rfl⟩ := typing
  cases free
  rw [feed_joining rfl (by simp), feedLine_plain fun commands => Nat.pos_iff_ne_zero.mp depth commands.depth]
  dsimp only at closed some ⊢
  rw [closed, if_neg (Nat.lt_irrefl 0)]
  split
  · rfl
  · rw [Input.flush]
    dsimp only
    rw [some]
    rfl

theorem OpenLines.not_blank (block : OpenLines (before ++ [last]) ts) (some : before ≠ []) :
    isBlankText (textOf (before ++ [last])) = false := by
  cases before with
  | nil => exact absurd rfl some
  | cons first others =>
    rw [← Bool.not_eq_true]
    intro blank
    have none := openBraces_blank (blank_lines blank first (by simp))
    have opened : 0 < openBraces 0 first := block.depthAfter_pos (i := 1) (by simp) (by simp)
    omega

/-- The last line, if it closes all braces, makes all lines run together, or be held. -/
theorem OpenLines.closed (block : OpenLines (before ++ [last]) ts) (some : before ≠ []) (closed : surplus ts ≤ 0) :
    feedAll {} (before ++ [last]) =
      if endsWithIf (textOf (before ++ [last])) then ({ lines := before ++ [last], held := true }, [])
      else ({}, [runLines (before ++ [last])]) := by
  have inside : before.length < (before ++ [last]).length := by simp
  obtain ⟨front, first, depth, positive⟩ := block.depthAfter_eq inside
  rw [List.take_left] at first depth
  have opened : 0 < depthAfter 0 before := by
    have positive := positive (List.length_pos_iff.mpr some)
    omega
  have now : openBraces (depthAfter 0 before) last = 0 := by
    rw [openBraces, depth, countBraces_next block.single first block.whole]
    omega
  have kept := block.kept
  rw [List.dropLast_concat] at kept
  have fed : ({ lines := before, depth := depthAfter 0 before } : Input).feed last = _ :=
    feed_closing ⟨rfl, rfl⟩ rfl opened now (block.not_blank some)
  rw [feedAll_append, kept, feedAll, fed]
  split
  · rfl
  · rfl

end Blocks

/-- A block over several lines is kept until it is closed, and is then run as one chunk. Let a brace be open behind
every line but the last one, by the tokens of the whole text that start up to there, and let no string go on behind a
line end, so that the text up to each line end can be read. Then nothing is run before the last line, and all lines
before it are kept; and if that line closes the block, all lines are run together, or are held for an `else`. -/
theorem open_block_kept_until_closed (lines : List String) (ts : List Token)
    (single : ∀ line ∈ lines, '\n' ∉ line.toList) (whole : tokenize (joined lines) = .ok ts)
    (opened : ∀ i, 0 < i → i < lines.length → OpenBehind i ts)
    (parted : ∀ i, 0 < i → i < lines.length → ∃ front, tokenize (joined (lines.take i)) = .ok front) :
    ∃ depth, feedAll {} lines.dropLast = ({ lines := lines.dropLast, depth }, []) ∧
      (∀ options color fuel read, feedConsole fuel read (Console.new options color) lines.dropLast =
        some { Console.new options color with input := { lines := lines.dropLast, depth } }) ∧
      (2 ≤ lines.length → ts.countP (·.kind = .openBrace) ≤ ts.countP (·.kind = .closeBrace) →
        feedAll {} lines =
          if endsWithIf (textOf lines) then ({ lines, held := true }, []) else ({}, [runLines lines])) := by
  have block : OpenLines lines ts := ⟨single, whole, opened, parted⟩
  refine ⟨_, block.kept, fun options color fuel read => ?_, fun several closed => ?_⟩
  · have fresh : (Console.new options color).input = {} := rfl
    have runs : (feedAll (Console.new options color).input lines.dropLast).2 = [].map Event.run := by
      rw [fresh, block.kept]
      rfl
    rw [feedConsole_runs fuel read _ runs, fresh, block.kept]
    rfl
  · obtain ⟨before, last, rfl⟩ := (List.eq_nil_or_concat lines).resolve_left (by rintro rfl; simp at several)
    rw [List.concat_eq_append] at block several ⊢
    have some : before ≠ [] := by
      rintro rfl
      simp at several
    refine block.closed some ?_
    rw [surplus]
    omega

/-- Braces in a comment and in a string. -/
def sampleBlock : List String := ["while false \x7b # \x7b", "print(\"\x7d\")", "\x7d"]

theorem sampleBlock_run_as_one :
    ∃ ts depth, (∀ line ∈ sampleBlock, '\n' ∉ line.toList) ∧ tokenize (joined sampleBlock) = .ok ts ∧
      (∀ i, 0 < i → i < sampleBlock.length → OpenBehind i ts) ∧
      feedAll {} sampleBlock.dropLast = ({ lines := sampleBlock.dropLast, depth }, []) ∧
      feedAll {} sampleBlock = ({}, [runLines sampleBlock]) := by
  have read : (tokenize (joined sampleBlock)).toOption.map (fun ts => decide (
      (OpenBehind 1 ts ∧ OpenBehind 2 ts) ∧
      ts.countP (·.kind = .openBrace) ≤ ts.countP (·.kind = .closeBrace))) = some true := by decide +kernel
  have fronts : ∀ i < 3, (tokenize (joined (sampleBlock.take i))).toOption.isSome = true := by decide +kernel
  have single : ∀ line ∈ sampleBlock, '\n' ∉ line.toList := by decide +kernel
  obtain ⟨ts, whole, shown⟩ := Option.map_eq_some_iff.mp read
  obtain ⟨⟨once, twice⟩, closed⟩ := of_decide_eq_true shown
  have whole := ok_of_toOption whole
  have opened : ∀ i, 0 < i → i < sampleBlock.length → OpenBehind i ts :=
    fun i some inside => openBehind_of_two once twice some inside
  have parted : ∀ i, 0 < i → i < sampleBlock.length → ∃ front, tokenize (joined (sampleBlock.take i)) = .ok front := by
    intro i _ inside
    obtain ⟨front, first⟩ := Option.isSome_iff_exists.mp (fronts i inside)
    exact ⟨front, ok_of_toOption first⟩
  obtain ⟨depth, kept, _, run⟩ := open_block_kept_until_closed sampleBlock ts single whole opened parted
  refine ⟨ts, depth, single, whole, opened, kept, ?_⟩
  rw [run (by decide) closed, if_neg (by decide +kernel)]

/-- A string that goes on behind a line end. -/
def spannedBlock : List String := ["\x7b s = \"a", "\x7d b\"", "\x7d"]

/-- A brace is open behind each of the first two lines, and yet they are run without the third one: the console takes
the brace in the string for one that closes the block. -/
theorem string_over_lines_ends_block :
    ∃ ts, (∀ line ∈ spannedBlock, '\n' ∉ line.toList) ∧ tokenize (joined spannedBlock) = .ok ts ∧
      (∀ i, 0 < i → i < spannedBlock.length → OpenBehind i ts) ∧
      feedAll {} spannedBlock.dropLast = ({}, [runLines spannedBlock.dropLast]) := by
  have read : (tokenize (joined spannedBlock)).toOption.map (fun ts => decide (
      OpenBehind 1 ts ∧ OpenBehind 2 ts)) = some true := by decide +kernel
  obtain ⟨ts, whole, shown⟩ := Option.map_eq_some_iff.mp read
  obtain ⟨once, twice⟩ := of_decide_eq_true shown
  exact ⟨ts, by decide +kernel, ok_of_toOption whole,
    fun i some inside => openBehind_of_two once twice some inside, by decide +kernel⟩

end Scriptlet.Proofs.OpenBlock
