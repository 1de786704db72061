import Scriptlet.Proofs.NodePlaces
import Scriptlet.Proofs.OpenBlock
import Mathlib.Data.List.Chain

/-! The line that an error shows. The reader counts line feeds only, but the lines of a text also end at a carriage
return without one. Both count the same as long as each return in front of a token is followed by a line feed, and
then the caret of an error stands below the first character of the token it is about. -/

namespace Scriptlet.Proofs.ShownLine
open Grammar EvalMoments ErrorOrigin NodePlaces OpenBlock ReaderRun

/-- The characters with each line end written as a line feed. -/
def lineFeeds : List Char → List Char
  | [] => []
  | '\r' :: '\n' :: rest => '\n' :: lineFeeds rest
  | '\r' :: rest => '\n' :: lineFeeds rest
  | c :: rest => c :: lineFeeds rest

/-- Each carriage return is followed by a line feed, unless it is the last character. -/
def Paired (chars : List Char) : Prop := chars.IsChain fun c next => c = '\r' → next = '\n'

private theorem paired_cons {c : Char} (other : c ≠ '\r') (chars : List Char) : Paired (c :: chars) ↔ Paired chars := by
  simp [Paired, List.isChain_cons, other]

private theorem paired_pair (chars : List Char) : Paired ('\r' :: '\n' :: chars) ↔ Paired chars := by
  rw [← paired_cons (show '\n' ≠ '\r' by decide) chars]
  simp [Paired]

section Places
variable {first : Char} (before : List Char)

/-- A character that is no line end. -/
def Inner (c : Char) : Prop := c ≠ '\r' ∧ c ≠ '\n'

private theorem lone_return (inner : Inner first) (alone : ∀ rest, before = '\n' :: rest → False) :
    ¬Paired ('\r' :: (before ++ [first])) := by
  intro paired
  have next := (List.isChain_cons.mp paired).1
  cases before with
  | nil => exact inner.2 (next first rfl rfl)
  | cons c rest => exact alone rest (by rw [next c rfl rfl])

/-- To the reader, line ends that are all written as line feeds make no difference if no return stands alone. -/
theorem after_lineFeeds (inner : Inner first) (paired : Paired (before ++ [first])) (p : Position) :
    p.after (lineFeeds before) = p.after before := by
  fun_induction lineFeeds before generalizing p with
  | case1 => rfl
  | case2 rest ih =>
    have same : (p.step '\r').step '\n' = p.step '\n' := by simp [Position.step]
    rw [Position.after_cons, ih ((paired_pair _).mp paired), Position.after_cons, Position.after_cons, same]
  | case3 rest alone _ => exact absurd paired (lone_return rest inner alone)
  | case4 c rest _ other ih =>
    rw [Position.after_cons, ih ((paired_cons other _).mp paired), Position.after_cons]

/-- Line ends that are all written as line feeds are more, if any return stands alone. -/
theorem count_lineFeeds (first : Char) : before.count '\n' ≤ (lineFeeds before).count '\n' ∧
    ((lineFeeds before).count '\n' = before.count '\n' → Paired (before ++ [first])) := by
  have skip : ('\r' == '\n') = false := by decide
  fun_induction lineFeeds before with
  | case1 => exact ⟨Nat.le_refl _, fun _ => List.isChain_singleton _⟩
  | case2 rest ih =>
    simp only [List.count_cons, skip, Bool.false_eq_true, ↓reduceIte, List.cons_append, paired_pair]
    exact ⟨Nat.succ_le_succ ih.1, fun same => ih.2 (Nat.succ.inj same)⟩
  | case3 rest _ ih =>
    simp only [List.count_cons, BEq.rfl, skip, Bool.false_eq_true, ↓reduceIte]
    exact ⟨Nat.le_succ_of_le ih.1, fun same => absurd ih.1 (by omega)⟩
  | case4 c rest _ other ih =>
    simp only [List.count_cons, List.cons_append, paired_cons other]
    exact ⟨Nat.add_le_add_right ih.1 _, fun same => ih.2 (Nat.add_right_cancel same)⟩

/-- The place of a character by all line ends is its place by line feeds exactly if no return in front of it stands
alone. -/
theorem place_lineFeeds (inner : Inner first) :
    placeBehind (lineFeeds before) = placeBehind before ↔ Paired (before ++ [first]) := by
  constructor
  · intro same
    have lines : 1 + ((lineFeeds before).count '\n' : Int) = 1 + (before.count '\n' : Int) := congrArg Position.line same
    exact (count_lineFeeds before first).2 (by omega)
  · intro paired
    rw [← start_after, ← start_after, after_lineFeeds before inner paired]

end Places

/-- How many characters stand behind the last line feed. -/
def width (chars : List Char) : Nat := (chars.reverse.takeWhile (· ≠ '\n')).length

private theorem width_feed (chars : List Char) : width ('\n' :: chars) = width chars := by
  simp only [width, List.reverse_cons, List.takeWhile_append]
  split
  next whole =>
    simpa using whole.symm
  · rfl

private theorem behind_last_feed (chars : List Char) :
    (chars.reverse.takeWhile (· ≠ '\n')).length = chars.reverse.length ↔ chars.count '\n' = 0 := by
  rw [List.count_eq_zero]
  constructor
  · intro same found
    have all := (List.takeWhile_prefix (l := chars.reverse) (· ≠ '\n')).eq_of_length same
    have kept := List.takeWhile_eq_self_iff.mp all '\n' (List.mem_reverse.mpr found)
    simp at kept
  · intro none
    rw [List.takeWhile_eq_self_iff.mpr]
    intro d member
    have other : d ≠ '\n' := fun feed => none (feed ▸ List.mem_reverse.mp member)
    simpa using other

private theorem width_other {c : Char} (inside : c ≠ '\n') (chars : List Char) :
    width (c :: chars) = if chars.count '\n' = 0 then width chars + 1 else width chars := by
  simp only [width, List.reverse_cons, List.takeWhile_append, behind_last_feed]
  split
  next none =>
    simp only [List.length_append, (behind_last_feed chars).mpr none]
    simp [inside]
  · rfl

/-- The character at a place, by line and column. -/
def charAt? (lines : List (List Char)) (p : Position) : Option Char :=
  (lines[(p.line - 1).toNat]?).bind fun chars => chars[(p.col - 1).toNat]?

private theorem charAt_placeBehind (lines : List (List Char)) (passed : List Char) :
    charAt? lines (placeBehind passed) = (lines[passed.count '\n']?).bind fun chars => chars[width passed]? := by
  have line : ((placeBehind passed).line - 1).toNat = passed.count '\n' := by simp [placeBehind]
  have col : ((placeBehind passed).col - 1).toNat = width passed := by simp [placeBehind, width]
  rw [charAt?, line, col]

/-- The lines of a text that is not empty. -/
def allLines (chars : List Char) : List (List Char) := (Text.splitLines chars).1 :: (Text.splitLines chars).2

private theorem allLines_feed (rest : List Char) : allLines ('\n' :: rest) = [] :: allLines rest := by
  simp [allLines, Text.splitLines]

private theorem allLines_pair (rest : List Char) : allLines ('\r' :: '\n' :: rest) = [] :: allLines rest := by
  simp [allLines, Text.splitLines]

private theorem allLines_return {rest : List Char} (alone : ∀ more, rest = '\n' :: more → False) :
    allLines ('\r' :: rest) = [] :: allLines rest := by
  rw [allLines, Text.splitLines]
  · rfl
  · exact alone

private theorem splitLines_other {c : Char} (inner : Inner c) (rest : List Char) :
    Text.splitLines (c :: rest) = (c :: (Text.splitLines rest).1, (Text.splitLines rest).2) := by
  rw [Text.splitLines]
  · exact fun _ isReturn => absurd isReturn inner.1
  · exact inner.1
  · exact inner.2

/-- By all line ends, a character stands where the text in front of it leaves off. -/
theorem char_shown {first : Char} (inner : Inner first) (before rest : List Char) :
    charAt? (allLines (before ++ first :: rest)) (placeBehind (lineFeeds before)) = some first := by
  rw [charAt_placeBehind]
  fun_induction lineFeeds before with
  | case1 => simp [allLines, splitLines_other inner, width]
  | case2 before ih =>
    rw [List.cons_append, List.cons_append, allLines_pair, width_feed, List.count_cons_self]
    exact ih
  | case3 before alone ih =>
    have still : ∀ more, before ++ first :: rest = '\n' :: more → False := by
      intro more same
      cases before with
      | nil => exact inner.2 (List.cons.inj same).1
      | cons c before => exact alone before (by rw [(List.cons.inj same).1])
    rw [List.cons_append, allLines_return still, width_feed, List.count_cons_self]
    exact ih
  | case4 c before _ single ih =>
    by_cases feed : c = '\n'
    · subst feed
      rw [List.cons_append, allLines_feed, width_feed, List.count_cons_self]
      exact ih
    · -- The character joins the first line, in which the wanted one may stand or not.
      rw [List.cons_append, allLines, splitLines_other ⟨single, feed⟩, width_other feed, List.count_cons_of_ne feed]
      rw [allLines] at ih
      cases count : (lineFeeds before).count '\n' with
      | zero => simpa [count] using ih
      | succ n => simpa [count] using ih

/-- The token stands behind these characters of the text, and is spelled with this character first. -/
structure Stands (text : String) (t : Token) (before : List Char) (first : Char) : Prop where
  place : t.position = placeBehind before
  spelled : ∃ chars rest, text.toList = before ++ first :: (chars ++ rest) ∧
    Spelled t.kind t.lexeme.toList (first :: chars)

theorem Stands.inner {text : String} {t : Token} {before : List Char} {first : Char}
    (stands : Stands text t before first) : Inner first := by
  obtain ⟨_, _, _, spelled⟩ := stands.spelled
  have code := startsToken_code (Spelled.first spelled)
  constructor
  · rintro rfl
    simp at code
  · rintro rfl
    simp at code

private theorem stands_of_lexed {passed rest : List Char} {ts : List Token} (lexed : Lexed passed rest ts)
    {text : String}
    (whole : text.toList = passed ++ rest) : ∀ t ∈ ts, ∃ before first, Stands text t before first := by
  induction lexed with
  | nil => simp
  | @cons passed blank chars rest t ts _ spelled place _ ih =>
    refine List.forall_mem_cons.mpr ⟨?_, ih (by simp [whole])⟩
    obtain ⟨first, chars, rfl⟩ := List.exists_cons_of_ne_nil spelled.ne_nil
    exact ⟨passed ++ blank, first, place, chars, rest, by simp [whole], spelled⟩

/-- The character of the text at a place, by the lines that errors show. -/
def shownAt? (text : String) (p : Position) : Option Char := charAt? ((Text.lines text).map String.toList) p

private theorem lines_eq {text : String} (some : text.toList ≠ []) :
    (Text.lines text).map String.toList = allLines text.toList := by
  rw [Text.lines]
  split
  · contradiction
  · simp [allLines, Function.comp_def]

theorem Stands.shown {text : String} {t : Token} {before : List Char} {first : Char}
    (stands : Stands text t before first) : shownAt? text (placeBehind (lineFeeds before)) = some first := by
  obtain ⟨chars, rest, whole, _⟩ := stands.spelled
  rw [shownAt?, lines_eq (by simp [whole]), whole]
  exact char_shown stands.inner before (chars ++ rest)

theorem Stands.place_iff {text : String} {t : Token} {before : List Char} {first : Char}
    (stands : Stands text t before first) :
    placeBehind (lineFeeds before) = t.position ↔ Paired (before ++ [first]) := by
  rw [stands.place]
  exact place_lineFeeds before stands.inner

/-- The report has the line of the error and below it a caret under the given character of the line. -/
def Marks (e : RuntimeError) (first : Char) : Prop :=
  ∃ (margin : String) (column : Nat), e.position.col = column + 1 ∧ e.line.toList[column]? = some first ∧
    e.report.excerpt = [margin ++ e.line, String.ofList (List.replicate (margin.length + column) ' ') ++ "^"]

private theorem marks_of_shown {e : RuntimeError} {file text : String} {first : Char}
    (line : e.line = (Source.ofText file text).line e.position.line) (row : 0 < e.position.line)
    (column : 0 < e.position.col) (shown : shownAt? text e.position = some first) : Marks e first := by
  obtain ⟨_, listed, there⟩ := Option.bind_eq_some_iff.mp shown
  rw [List.getElem?_map] at listed
  obtain ⟨given, found, rfl⟩ := Option.map_eq_some_iff.mp listed
  have same : e.line = given := by
    have index : e.position.line.toNat - 1 = (e.position.line - 1).toNat := by omega
    rw [line, Source.line, if_pos row, Source.ofText]
    dsimp only
    rw [index, found, Option.getD_some]
  have filled : given.isEmpty = false := by
    rw [← Bool.not_eq_true, String.isEmpty_iff]
    rintro rfl
    simp at there
  refine ⟨"  " ++ toString e.position.line ++ " | ", (e.position.col - 1).toNat, by omega, by rw [same, there], ?_⟩
  simp only [Report.excerpt, RuntimeError.report, same, filled, Bool.false_or, decide_eq_true_eq]
  rw [if_neg (by omega)]
  have indent (n : Nat) : ((n : Int) + (e.position.col - 1)).toNat = n + (e.position.col - 1).toNat := by omega
  rw [indent]

/-- Each token is shown at its place by all line ends. That is the place the reader gave it exactly if no carriage
return in front of it stands alone. An error of a text that is run stands at a token, and marks the first character of
that token if this is so. -/
theorem tokens_shown_at_their_places (text : String) :
    (∀ ts, tokenize text = .ok ts → ∀ t ∈ ts, ∃ before first, Stands text t before first ∧
      shownAt? text (placeBehind (lineFeeds before)) = some first ∧
      (placeBehind (lineFeeds before) = t.position ↔ Paired (before ++ [first])) ∧
      (Paired (before ++ [first]) → shownAt? text t.position = some first)) ∧
    ∀ limit sink name fuel file e after,
      (Machine.new limit sink name).runSource fuel file text = some (.error (.runtime e), after) →
      ∃ ts program t now here before first, tokenize text = .ok ts ∧ parseProgram ts = .ok program ∧ t ∈ ts ∧
        Reaches (firstMoment ((Machine.new limit sink name).setSource file text) program) now ∧
        Raises now here e.position e.fault ∧ t.position = e.position ∧ Stands text t before first ∧
        e.line = (Source.ofText file text).line e.position.line ∧ (Paired (before ++ [first]) → Marks e first) := by
  have stands {ts : List Token} (read : tokenize text = .ok ts) {t : Token} (member : t ∈ ts) :=
    stands_of_lexed (lexed_of_tokenize read) (List.nil_append _).symm t member
  have shown {t : Token} {before : List Char} {first : Char} (stands : Stands text t before first)
      (paired : Paired (before ++ [first])) : shownAt? text t.position = some first :=
    stands.place_iff.mpr paired ▸ stands.shown
  constructor
  · intro ts read t member
    obtain ⟨before, first, stands⟩ := stands read member
    exact ⟨before, first, stands, stands.shown, stands.place_iff, shown stands⟩
  · intro limit sink name fuel file e after failed
    obtain ⟨ts, program, t, now, here, read, parsed, member, place, reached, raises, line⟩ := error_at_token failed
    obtain ⟨before, first, stands⟩ := stands read member
    refine ⟨ts, program, t, now, here, before, first, read, parsed, member, reached, raises, place, stands, line, ?_⟩
    intro paired
    have known : 0 < t.position.line ∧ 0 < t.position.col := by
      simp only [stands.place, placeBehind]
      omega
    rw [place] at known
    exact marks_of_shown line known.1 known.2 (place ▸ shown stands paired)

private theorem paired_front {text : String} {t : Token} {before : List Char} {first : Char}
    (paired : Paired text.toList)
    (stands : Stands text t before first) : Paired (before ++ [first]) := by
  obtain ⟨chars, rest, whole, _⟩ := stands.spelled
  rw [whole, List.append_cons] at paired
  exact paired.left_of_append

/-- A function that reads a variable that is not there, with a comment in front, in a text whose line ends are all
pairs. -/
def samplePairs : String := "# sum\r\nfunc f(a) \x7b\r\n  return a + y\r\n\x7d\r\nprint(f(1))"

theorem samplePairs_marks_variable : ∃ e after ts t before,
    (Machine.new 0 {} "").runSource 20 "sums" samplePairs = some (.error (.runtime e), after) ∧
    tokenize samplePairs = .ok ts ∧ t ∈ ts ∧ t.position = ⟨3, 14⟩ ∧ e.position = ⟨3, 14⟩ ∧
    Stands samplePairs t before 'y' ∧ Paired (before ++ ['y']) ∧ Marks e 'y' ∧
    ∃ front c, Stands samplePairs t front c ∧ Paired (front ++ [c]) ∧ shownAt? samplePairs t.position = some c := by
  have ran : ((Machine.new 0 {} "").runSource 20 "sums" samplePairs).map Prod.fst =
      some (.error (.runtime ⟨.unknownVariable "y", ⟨3, 14⟩, "sums", "  return a + y", ["f"]⟩)) := by
    decide +kernel
  have pairs : Paired samplePairs.toList := by
    unfold Paired
    decide +kernel
  obtain ⟨⟨_, after⟩, failed, rfl⟩ := Option.map_eq_some_iff.mp ran
  obtain ⟨tokens, errors⟩ := tokens_shown_at_their_places samplePairs
  obtain ⟨ts, _, t, _, _, before, first, read, _, member, _, _, place, stands, _, marks⟩ :=
    errors 0 {} "" 20 "sums" _ after failed
  have marked := marks (paired_front pairs stands)
  have same : first = 'y' := by
    obtain ⟨_, column, col, there, _⟩ := marked
    have col : (14 : Int) = column + 1 := col
    have thirteen : column = 13 := by omega
    rw [thirteen] at there
    exact (Option.some.inj there).symm
  subst same
  obtain ⟨front, c, again, _, _, shown⟩ := tokens ts read t member
  exact ⟨_, after, ts, t, before, failed, read, member, place, rfl, stands, paired_front pairs stands, marked,
    front, c, again, paired_front pairs again, shown (paired_front pairs again)⟩

/-- A return alone ends a line that is shown, but not one that is counted. The error names a place in the first line
and shows that line, which ends in front of it. -/
theorem lone_return_hides_token :
    (tokenize "x = 1\rprint(y)").map (·.map fun t => (t.lexeme, t.position)) =
      .ok [("x", ⟨1, 1⟩), ("=", ⟨1, 3⟩), ("1", ⟨1, 5⟩), ("print", ⟨1, 7⟩), ("(", ⟨1, 12⟩), ("y", ⟨1, 13⟩),
        (")", ⟨1, 14⟩)] ∧
    Text.lines "x = 1\rprint(y)" = ["x = 1", "print(y)"] ∧ shownAt? "x = 1\rprint(y)" ⟨1, 13⟩ = none ∧
    ((Machine.new 0 {} "").runSource 20 "case.kd" "x = 1\rprint(y)").map Prod.fst =
      some (.error (.runtime ⟨.unknownVariable "y", ⟨1, 13⟩, "case.kd", "x = 1", []⟩)) := by
  decide +kernel

end Scriptlet.Proofs.ShownLine
