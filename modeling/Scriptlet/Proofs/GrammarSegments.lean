import Scriptlet.Proofs.GrammarNesting
import Scriptlet.Proofs.Outcomes

/-! How far a statement goes. A stretch of tokens is passed if the scan for the end of a statement
takes it as a whole, wherever it stands; stretches that are passed combine to larger ones. -/

namespace Scriptlet.Proofs.GrammarSegments
open Grammar GrammarNesting

/-- The scan after `length` tokens of which the given one was the last. -/
def onward (parens : Nat) (last : Token) (length : Nat) (rest : List Token) : Except ParseError Nat :=
  if isBoundary parens last rest then .ok length
  else (scanLength true parens rest).map (length + ·)

/-- Kinds that the scan for the end of a statement treats like any other. -/
def isOrdinary : TokenKind → Bool
  | .ifWord | .whileWord | .openBrace | .closeBrace | .openParen | .closeParen | .comma | .funcWord
  | .elseWord | .returnWord => false
  | _ => true

variable {t : Token} {started : Bool} {parens : Nat} {rest : List Token}

private theorem except_map_map (outcome : Except ParseError Nat) (first second : Nat) :
    (outcome.map (second + ·)).map (first + ·) = outcome.map (first + second + ·) := by
  cases outcome with
  | error e => rfl
  | ok n => simp [Except.map, Nat.add_assoc]

theorem map_onward (last : Token) (first second : Nat) :
    (onward parens last second rest).map (first + ·) = onward parens last (first + second) rest := by
  simp only [onward]
  split
  · rfl
  · exact except_map_map ..

private theorem onward_inside (last : Token) (length : Nat) (inside : 0 < parens) :
    onward parens last length rest = (scanLength true parens rest).map (length + ·) := by
  have outside : ¬(parens == 0) := by simp; omega
  simp [onward, isBoundary, outside]

/-- No statement ends in front of a token that starts none. -/
theorem onward_before (last : Token) (length : Nat) (starts : startsStatement t.kind = false) :
    onward parens last length (t :: rest) = (scanLength true parens (t :: rest)).map (length + ·) := by
  simp [onward, isBoundary, starts]

/-- Nor behind a token that ends no expression. -/
theorem onward_behind {last : Token} (length : Nat) (ends : endsExpression last.kind = false) :
    onward parens last length rest = (scanLength true parens rest).map (length + ·) := by
  simp [onward, isBoundary, ends]

theorem scan_ordinary (ordinary : isOrdinary t.kind = true) :
    scanLength started parens (t :: rest) = onward parens t 1 rest := by
  rw [scanLength]
  split <;> simp_all [isOrdinary, onward]

theorem scan_open (opens : t.kind = .openParen) :
    scanLength started parens (t :: rest) = (scanLength true (parens + 1) rest).map (1 + ·) := by
  rw [scanLength, ← onward_inside t 1 (Nat.succ_pos parens)]
  simp [opens, onward]

theorem scan_close (closes : t.kind = .closeParen) :
    scanLength started (parens + 1) (t :: rest) = onward parens t 1 rest := by
  rw [scanLength]
  simp [closes, onward]

theorem scan_comma (comma : t.kind = .comma) :
    scanLength started (parens + 1) (t :: rest) = (scanLength true (parens + 1) rest).map (1 + ·) := by
  rw [scanLength, ← onward_inside t 1 (Nat.succ_pos parens)]
  simp [comma, onward]

theorem blockLength_whole {first last : Token} {inner : List Token} (opens : first.kind = .openBrace)
    (closes : last.kind = .closeBrace) (nested : Nested inner) (rest : List Token) :
    blockLength first (inner ++ last :: rest) = .ok (inner.length + 2) := by
  rw [blockLength, closing_whole braces_pair opens closes nested]

/-- A scan that has come to the end of a longer stretch goes on from its last token. -/
theorem onward_drop {first last : Token} {inner : List Token} (rest : List Token) :
    (if isBoundary parens
        (((first :: (inner ++ last :: rest))[inner.length + 2 - 1]?).getD first)
        ((inner ++ last :: rest).drop (inner.length + 2 - 1)) then .ok (inner.length + 2)
      else (scanLength true parens ((inner ++ last :: rest).drop (inner.length + 2 - 1))).map
        (inner.length + 2 + ·)) = onward parens last (inner.length + 2) rest := by
  have dropped : (inner ++ last :: rest).drop (inner.length + 1) = rest := by
    simp
  simp only [Nat.add_succ_sub_one, dropped]
  simp [onward]

theorem scan_block {first last : Token} {inner : List Token} (opens : first.kind = .openBrace)
    (closes : last.kind = .closeBrace) (nested : Nested inner) :
    scanLength started parens (first :: (inner ++ last :: rest)) =
      onward parens last (inner.length + 2) rest := by
  rw [scanLength]
  simp only [opens, blockLength_whole opens closes nested, bind, Except.bind]
  exact onward_drop rest

/-- What can follow an action: nothing, the end of the parentheses around it, or another statement. -/
def BlockStops (rest : List Token) : Prop :=
  ∀ t ∈ rest.head?, t.kind = .closeParen ∨ startsStatement t.kind = true

/-- What can follow a statement or the inside of parentheses. An `else` would still belong to it. -/
def Stops (rest : List Token) : Prop :=
  ∀ t ∈ rest.head?, t.kind = .closeParen ∨ startsStatement t.kind = true ∧ t.kind ≠ .elseWord

theorem Stops.block (stops : Stops rest) : BlockStops rest :=
  fun t member => (stops t member).imp id And.left

theorem stops_nil : Stops [] := by simp [Stops]

private theorem stops_close (closes : t.kind = .closeParen) : Stops (t :: rest) := by simp [Stops, closes]

theorem onward_stops {last : Token} (length : Nat) (ends : endsExpression last.kind = true)
    (stops : BlockStops rest) : onward 0 last length rest = .ok length := by
  cases rest with
  | nil => simp [onward, isBoundary, scanLength, Except.map]
  | cons t rest =>
    rcases stops t rfl with closes | starts
    · rw [onward_before last length (by simp [closes, startsStatement]), scanLength]
      simp [closes, Except.map]
    · simp [onward, isBoundary, ends, starts]

/-- The scan takes the stretch whole and goes on behind its last token, whatever comes next. -/
def Solid (ts : List Token) (last : Token) : Prop :=
  ∀ started parens rest, scanLength started parens (ts ++ rest) = onward parens last ts.length rest

/-- The scan takes the stretch whole where something that can follow it comes next. -/
def Passed (ts : List Token) : Prop :=
  ∃ last, endsExpression last.kind = true ∧ ∀ started parens rest, Stops rest →
    scanLength started parens (ts ++ rest) = onward parens last ts.length rest

/-- Inside parentheses the scan takes the stretch whole. -/
def Inside (ts : List Token) : Prop :=
  ∀ parens rest, scanLength true (parens + 1) (ts ++ rest) =
    (scanLength true (parens + 1) rest).map (ts.length + ·)

theorem Solid.passed {ts : List Token} {last : Token} (solid : Solid ts last)
    (ends : endsExpression last.kind = true) : Passed ts :=
  ⟨last, ends, fun started parens rest _ => solid started parens rest⟩

theorem Solid.inside {ts : List Token} {last : Token} (solid : Solid ts last) : Inside ts := by
  intro parens rest
  rw [solid, onward_inside last _ (Nat.succ_pos parens)]

theorem solid_ordinary (ordinary : isOrdinary t.kind = true) : Solid [t] t :=
  fun _ _ _ => scan_ordinary ordinary

theorem solid_block {first last : Token} {inner : List Token} (opens : first.kind = .openBrace)
    (closes : last.kind = .closeBrace) (nested : Nested inner) :
    Solid (first :: (inner ++ [last])) last := by
  intro started parens rest
  simp only [List.cons_append, List.append_assoc, List.length_cons, List.length_append, List.length_nil]
  exact scan_block opens closes nested

/-- Two stretches make one if no statement can end between them. -/
theorem Solid.append {first second : List Token} {mid last : Token} (before : Solid first mid)
    (after : Solid second last)
    (joined : endsExpression mid.kind = false ∨ second.head?.any (startsStatement ·.kind) = false)
    (some : second ≠ []) : Solid (first ++ second) last := by
  intro started parens rest
  obtain ⟨t, others, rfl⟩ := List.exists_cons_of_ne_nil some
  have within : onward parens mid first.length (t :: others ++ rest) =
      (scanLength true parens (t :: others ++ rest)).map (first.length + ·) := by
    rcases joined with ends | starts
    · exact onward_behind first.length ends
    · exact onward_before mid first.length (by simpa using starts)
  rw [List.append_assoc, before, within, after, map_onward, List.length_append]

private theorem scan_around {first last : Token} {inner : List Token} (opens : first.kind = .openParen)
    (closes : last.kind = .closeParen)
    (inside : scanLength true (parens + 1) (inner ++ last :: rest) =
      (scanLength true (parens + 1) (last :: rest)).map (inner.length + ·)) :
    scanLength started parens (first :: (inner ++ last :: rest)) =
      onward parens last (inner.length + 2) rest := by
  rw [scan_open opens, inside, scan_close closes, map_onward, map_onward]
  congr 1
  omega

theorem solid_wrapped {first last : Token} {inner : List Token} (opens : first.kind = .openParen)
    (closes : last.kind = .closeParen) (passed : Passed inner) :
    Solid (first :: (inner ++ [last])) last := by
  intro started parens rest
  simp only [List.cons_append, List.append_assoc, List.length_cons, List.length_append, List.length_nil]
  obtain ⟨tail, _, scanned⟩ := passed
  refine scan_around opens closes ?_
  rw [scanned true (parens + 1) _ (stops_close closes), onward_inside tail _ (Nat.succ_pos parens)]

theorem solid_list {first last : Token} {inner : List Token} (opens : first.kind = .openParen)
    (closes : last.kind = .closeParen) (inside : Inside inner) :
    Solid (first :: (inner ++ [last])) last := by
  intro started parens rest
  simp only [List.cons_append, List.append_assoc, List.length_cons, List.length_append, List.length_nil]
  exact scan_around opens closes (inside parens _)

theorem Inside.comma {first second : List Token} (before : Inside first) (comma : t.kind = .comma)
    (after : Inside second) : Inside (first ++ t :: second) := by
  intro parens rest
  rw [List.append_assoc, List.cons_append, before, scan_comma comma, after]
  simp only [except_map_map, List.length_append, List.length_cons]
  congr 1
  funext n
  omega

theorem inside_nil : Inside [] := by
  intro parens rest
  cases scanned : scanLength true (parens + 1) rest <;> simp [scanned, Except.map]

/-- A statement of its own, wherever it stands. -/
def Segment (ts : List Token) : Prop := ∀ rest, Stops rest → segmentLength (ts ++ rest) = .ok ts.length

theorem segment_scan (branch : t.kind ≠ .ifWord) (loop : t.kind ≠ .whileWord) (ret : t.kind ≠ .returnWord) :
    segmentLength (t :: rest) = scanLength false 0 (t :: rest) := by
  rw [segmentLength]
  split <;> first | contradiction | rfl

theorem Passed.segment {ts : List Token} (passed : Passed (t :: ts)) (branch : t.kind ≠ .ifWord)
    (loop : t.kind ≠ .whileWord) (ret : t.kind ≠ .returnWord) : Segment (t :: ts) := by
  intro rest stops
  obtain ⟨last, ends, scanned⟩ := passed
  rw [List.cons_append, segment_scan branch loop ret, ← List.cons_append, scanned _ _ _ stops,
    onward_stops _ ends stops.block]

theorem segment_block {first last : Token} {inner : List Token} (opens : first.kind = .openBrace)
    (closes : last.kind = .closeBrace) (nested : Nested inner) (stops : BlockStops rest) :
    segmentLength (first :: (inner ++ last :: rest)) = .ok (inner.length + 2) := by
  rw [segment_scan (by simp [opens]) (by simp [opens]) (by simp [opens]), scan_block opens closes nested,
    onward_stops _ (by simp [closes, endsExpression]) stops]

/-- A condition in parentheses ends in front of the block behind it. -/
theorem segment_condition {first last : Token} {inner : List Token} (opens : first.kind = .openParen)
    (closes : last.kind = .closeParen) (passed : Passed inner) (brace : t.kind = .openBrace) :
    segmentLength (first :: (inner ++ last :: t :: rest)) = .ok (inner.length + 2) := by
  have solid := solid_wrapped opens closes passed false 0 (t :: rest)
  simp only [List.cons_append, List.append_assoc, List.nil_append, List.length_cons, List.length_append,
    List.length_nil] at solid
  rw [segment_scan (by simp [opens]) (by simp [opens]) (by simp [opens]), solid,
    onward_stops _ (by simp [closes, endsExpression])]
  simp [BlockStops, brace, startsStatement]

theorem segment_return {value : List Token} (word : t.kind = .returnWord) (passed : Passed value)
    (some : value ≠ []) (head : ∀ first ∈ value.head?, first.kind ≠ .elseWord ∧ first.kind ≠ .closeBrace) :
    Segment (t :: value) := by
  intro rest stops
  obtain ⟨first, others, rfl⟩ := List.exists_cons_of_ne_nil some
  obtain ⟨last, ends, scanned⟩ := passed
  rw [List.cons_append, segmentLength]
  simp only [word]
  rw [if_neg (by simpa using head first rfl), scanned _ _ _ stops, onward_stops _ ends stops.block]
  simp only [Except.map, List.length_cons]
  congr 1
  omega

section Conditionals
variable {word : Token} {condition action : List Token}

theorem branchLengths_plain (first : segmentLength (condition ++ (action ++ rest)) = .ok condition.length)
    (second : segmentLength (action ++ rest) = .ok action.length) (some : action ≠ [])
    (ends : ∀ t ∈ rest.head?, t.kind ≠ .elseWord) :
    branchLengths word (condition ++ (action ++ rest)) = .ok ⟨condition.length, action.length, none⟩ := by
  have next : (condition ++ (action ++ rest))[condition.length + action.length]? = rest.head? := by
    rw [← List.append_assoc, ← List.length_append, List.getElem?_append_right (Nat.le_refl _), Nat.sub_self,
      List.head?_eq_getElem?]
  rw [branchLengths]
  simp only [List.isEmpty_iff, List.append_eq_nil_iff, some, false_and, and_false, ↓reduceIte, first,
    List.drop_left, second, next, bind, Except.bind, pure, Except.pure]
  split
  · rfl
  next t found =>
    rw [if_neg (ends t found)]

theorem branchLengths_else {otherwise : List Token}
    (first : segmentLength (condition ++ (action ++ t :: (otherwise ++ rest))) = .ok condition.length)
    (second : segmentLength (action ++ t :: (otherwise ++ rest)) = .ok action.length) (some : action ≠ [])
    (opposite : t.kind = .elseWord) (third : segmentLength (otherwise ++ rest) = .ok otherwise.length)
    (someElse : otherwise ≠ []) :
    branchLengths word (condition ++ (action ++ t :: (otherwise ++ rest))) =
      .ok ⟨condition.length, action.length, Option.some otherwise.length⟩ := by
  have behind (n : Nat) : (condition ++ (action ++ t :: (otherwise ++ rest))).drop
      (condition.length + action.length + n) = (t :: (otherwise ++ rest)).drop n := by
    rw [← List.append_assoc, ← List.length_append, List.drop_append]
    simp
  have next : (condition ++ (action ++ t :: (otherwise ++ rest)))[condition.length + action.length]? =
      Option.some t := by
    rw [← List.head?_drop, ← Nat.add_zero (condition.length + action.length), behind 0]
    rfl
  rw [branchLengths]
  simp only [List.isEmpty_iff, List.append_eq_nil_iff, some, false_and, and_false, ↓reduceIte, first,
    List.drop_left, second, next, opposite, behind 1, List.drop_one, List.tail_cons, someElse, third, bind,
    Except.bind, pure, Except.pure]

theorem loopLengths_eq (first : segmentLength (condition ++ (action ++ rest)) = .ok condition.length)
    (second : segmentLength (action ++ rest) = .ok action.length) (some : action ≠ []) :
    loopLengths word (condition ++ (action ++ rest)) = .ok ⟨condition.length, action.length⟩ := by
  rw [loopLengths]
  simp only [List.isEmpty_iff, List.append_eq_nil_iff, some, false_and, and_false, ↓reduceIte, first,
    List.drop_left, second, bind, Except.bind, pure, Except.pure]

theorem segment_branch_word (kind : word.kind = .ifWord) :
    segmentLength (word :: rest) = (branchLengths word rest).map BranchLengths.total := by
  rw [segmentLength]
  simp only [kind]

theorem segment_loop_word (kind : word.kind = .whileWord) :
    segmentLength (word :: rest) = (loopLengths word rest).map LoopLengths.total := by
  rw [segmentLength]
  simp only [kind]

/-- An `if` or `while` inside a statement is measured first, and the scan goes on behind it. -/
theorem scan_construct {last : Token} {inner : List Token}
    (kind : word.kind = .ifWord ∨ word.kind = .whileWord)
    (first : segmentLength (word :: (inner ++ last :: rest)) = .ok (inner.length + 2)) :
    scanLength started parens (word :: (inner ++ last :: rest)) = onward parens last (inner.length + 2) rest := by
  rw [scanLength]
  rcases kind with kind | kind
  · rw [segment_branch_word kind] at first
    obtain ⟨parts, found, total⟩ := map_eq_ok first
    simp only [kind, found, total, bind, Except.bind]
    exact onward_drop rest
  · rw [segment_loop_word kind] at first
    obtain ⟨parts, found, total⟩ := map_eq_ok first
    simp only [kind, found, total, bind, Except.bind]
    exact onward_drop rest

/-- A conditional that is a statement of its own is passed inside a statement, too. -/
theorem Segment.passed {body : List Token} {last : Token} (segment : Segment (word :: body))
    (kind : word.kind = .ifWord ∨ word.kind = .whileWord) (final : body.getLast? = some last)
    (ends : endsExpression last.kind = true) : Passed (word :: body) := by
  obtain ⟨inner, rfl⟩ := List.getLast?_eq_some_iff.mp final
  refine ⟨last, ends, fun started parens rest stops => ?_⟩
  have whole := segment rest stops
  simp only [List.cons_append, List.append_assoc, List.nil_append, List.length_cons, List.length_append,
    List.length_nil] at whole ⊢
  exact scan_construct kind whole

end Conditionals

end Scriptlet.Proofs.GrammarSegments
