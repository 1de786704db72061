import Scriptlet.Proofs.ProgramRendering

/-! Reading looks at what tokens say and never at where they stand; places are only handed on. So tokens without
places are read as the trees without places, and fail where the others fail. -/

namespace Scriptlet

def Token.unplaced (t : Token) : Token := { t with position := {} }

def ParseError.unplaced (e : ParseError) : ParseError := { e with culprit := e.culprit.map Token.unplaced }

namespace Grammar

def Split.unplaced (split : Split) : Split :=
  ⟨split.before.map Token.unplaced, split.operator.unplaced, split.after.map Token.unplaced⟩

def Pieces.unplaced (pieces : Pieces) : Pieces :=
  ⟨pieces.pieces.map (List.map Token.unplaced), pieces.trailing.map ParseError.unplaced⟩

def Shape.unplaced : Shape → Shape
  | leaf node => leaf node.unplaced
  | group inner => group (inner.map Token.unplaced)
  | block _ statements => block {} statements.unplaced
  | ret _ value => .ret {} (value.map Token.unplaced)
  | branch _ condition action otherwise =>
    branch {} (condition.map Token.unplaced) (action.map Token.unplaced) (otherwise.map (List.map Token.unplaced))
  | loop _ condition action => loop {} (condition.map Token.unplaced) (action.map Token.unplaced)
  | unary operator function operand => unary operator.unplaced function (operand.map Token.unplaced)
  | binary operator function left right =>
    binary operator.unplaced function (left.map Token.unplaced) (right.map Token.unplaced)
  | assign name value => assign name.unplaced (value.map Token.unplaced)
  | update name operator function value =>
    update name.unplaced operator.unplaced function (value.map Token.unplaced)
  | call _ callee arguments => call {} (callee.map Token.unplaced) arguments.unplaced
  | member dot base name => member dot.unplaced (base.map Token.unplaced) name

end Grammar
end Scriptlet

namespace Scriptlet.Proofs.GrammarPlaces
open Grammar GrammarReading

/-- The outcome without places. -/
def unplacing {α β : Type} (f : α → β) : Except ParseError α → Except ParseError β
  | .ok v => .ok (f v)
  | .error e => .error e.unplaced

section Outcomes
variable {α β γ δ : Type}

@[simp] theorem unplacing_ok (f : α → β) (v : α) : unplacing f (.ok v) = .ok (f v) := rfl

private theorem unplacing_map (f : α → β) (outcome : Except ParseError α) :
    (unplacing id outcome).map f = unplacing id (outcome.map f) := by
  cases outcome <;> rfl

private theorem unplacing_bind {f : α → β} {g : γ → δ} {next : α → Except ParseError γ}
    {after : β → Except ParseError δ}
    (outcome : Except ParseError α) (same : ∀ v, outcome = .ok v → after (f v) = unplacing g (next v)) :
    (unplacing f outcome >>= after) = unplacing g (outcome >>= next) := by
  cases outcome with
  | error e => rfl
  | ok v => exact same v rfl

private theorem unplacing_toOption (f : α → β) (outcome : Except ParseError α) :
    (unplacing f outcome).toOption = outcome.toOption.map f := by
  cases outcome <;> rfl

end Outcomes

variable {t : Token} {rest ts : List Token}

@[simp] theorem unplaced_kind (t : Token) : t.unplaced.kind = t.kind := rfl

@[simp] theorem unplaced_lexeme (t : Token) : t.unplaced.lexeme = t.lexeme := rfl

private theorem getD_unplaced (n : Nat) (ts : List Token) (t : Token) :
    ((ts.map Token.unplaced)[n]?).getD t.unplaced = ((ts[n]?).getD t).unplaced := by
  rw [List.getElem?_map]
  cases ts[n]? <;> rfl

private theorem closing_unplaced (opening closing : TokenKind) (depth : Nat) (ts : List Token) :
    closing? opening closing depth (ts.map Token.unplaced) = closing? opening closing depth ts := by
  induction ts generalizing depth with
  | nil => rfl
  | cons t rest ih => simp only [List.map_cons, closing?, unplaced_kind, ih]

private theorem blockLength_unplaced (t : Token) (rest : List Token) :
    blockLength t.unplaced (rest.map Token.unplaced) = unplacing id (blockLength t rest) := by
  rw [blockLength, ← List.map_cons, closing_unplaced, blockLength]
  split <;> rfl

private theorem isBoundary_unplaced (parens : Nat) (last : Token) (rest : List Token) :
    isBoundary parens last.unplaced (rest.map Token.unplaced) = isBoundary parens last rest := by
  cases rest <;> rfl

mutual

theorem segmentLength_unplaced (ts : List Token) :
    segmentLength (ts.map Token.unplaced) = unplacing id (segmentLength ts) := by
  match ts with
  | [] => 
    rw [List.map_nil, segmentLength]
    rfl
  | t :: rest =>
    have head : (rest.map Token.unplaced).head?.all (fun next => next.kind = .elseWord ∨ next.kind = .closeBrace) =
        rest.head?.all (fun next => next.kind = .elseWord ∨ next.kind = .closeBrace) := by
      cases rest <;> rfl
    rw [List.map_cons, segmentLength, segmentLength]
    simp only [unplaced_kind, head, branchLengths_unplaced t rest, loopLengths_unplaced t rest, unplacing_map]
    split
    · rfl
    · rfl
    · split
      · rfl
      · rw [scanLength_unplaced true 0 rest, unplacing_map]
    · exact scanLength_unplaced false 0 (t :: rest)
termination_by 3 * ts.length + 2
decreasing_by all_goals grind

theorem scanLength_unplaced (started : Bool) (parens : Nat) (ts : List Token) :
    scanLength started parens (ts.map Token.unplaced) = unplacing id (scanLength started parens ts) := by
  match ts with
  | [] =>
    rw [List.map_nil, scanLength]
    rfl
  | t :: rest =>
    have goOn (parens length : Nat) :
        (if isBoundary parens ((t.unplaced :: rest.map Token.unplaced)[length - 1]?.getD t.unplaced)
            ((rest.map Token.unplaced).drop (length - 1)) then (.ok length : Except ParseError Nat)
          else (scanLength true parens ((rest.map Token.unplaced).drop (length - 1))).map (length + ·)) =
        unplacing id (if isBoundary parens ((t :: rest)[length - 1]?.getD t) (rest.drop (length - 1)) then .ok length
          else (scanLength true parens (rest.drop (length - 1))).map (length + ·)) := by
      rw [← List.map_cons, getD_unplaced, ← List.map_drop, isBoundary_unplaced,
        scanLength_unplaced true parens (rest.drop (length - 1)), unplacing_map]
      split <;> rfl
    rw [List.map_cons, scanLength, scanLength]
    simp only [unplaced_kind, goOn, blockLength_unplaced, branchLengths_unplaced t rest, loopLengths_unplaced t rest]
    split
    · exact unplacing_bind _ fun _ _ => rfl
    · exact unplacing_bind _ fun _ _ => rfl
    · exact unplacing_bind _ fun _ _ => rfl
    · rfl
    · split
      · split <;> rfl
      · rfl
    · split
      · split <;> rfl
      · rfl
    all_goals rfl
termination_by 3 * ts.length + 1
decreasing_by all_goals grind

theorem branchLengths_unplaced (word : Token) (body : List Token) :
    branchLengths word.unplaced (body.map Token.unplaced) = unplacing id (branchLengths word body) := by
  rw [branchLengths, branchLengths, List.isEmpty_map]
  split
  · rfl
  · rw [segmentLength_unplaced body]
    refine unplacing_bind _ fun condition _ => ?_
    simp only [id, ← List.map_drop, List.isEmpty_map, List.getElem?_map]
    split
    · rfl
    · rw [segmentLength_unplaced (body.drop condition)]
      refine unplacing_bind _ fun action _ => ?_
      simp only [id]
      cases body[condition + action]? with
      | none => rfl
      | some next =>
        simp only [Option.map_some]
        by_cases opposite : next.kind = .elseWord
        · rw [if_pos (show next.unplaced.kind = _ from opposite), if_pos opposite]
          split
          · rfl
          · rw [segmentLength_unplaced (body.drop (condition + action + 1))]
            exact unplacing_bind _ fun _ _ => rfl
        · rw [if_neg (show next.unplaced.kind ≠ _ from opposite), if_neg opposite]
          rfl
termination_by 3 * body.length + 3
decreasing_by all_goals grind

theorem loopLengths_unplaced (word : Token) (body : List Token) :
    loopLengths word.unplaced (body.map Token.unplaced) = unplacing id (loopLengths word body) := by
  rw [loopLengths, loopLengths, List.isEmpty_map]
  split
  · rfl
  · rw [segmentLength_unplaced body]
    refine unplacing_bind _ fun condition _ => ?_
    simp only [id, ← List.map_drop, List.isEmpty_map]
    split
    · rfl
    · rw [segmentLength_unplaced (body.drop condition)]
      exact unplacing_bind _ fun _ _ => rfl
termination_by 3 * body.length + 3
decreasing_by all_goals grind

end

private theorem passLength_unplaced (outside : Bool) (previous : Option Token) (t : Token) (rest : List Token) :
    passLength? outside (previous.map Token.unplaced) t.unplaced (rest.map Token.unplaced) =
      passLength? outside previous t rest := by
  have construct : constructLength? t.unplaced (rest.map Token.unplaced) = constructLength? t rest := by
    simp only [constructLength?, unplaced_kind, branchLengths_unplaced, loopLengths_unplaced, unplacing_toOption,
      Option.map_id, id]
  rw [passLength?, passLength?, Option.isSome_map, construct]

private theorem push_unplaced (tokens : List Token) (split : Split) :
    split.unplaced.push (tokens.map Token.unplaced) = (split.push tokens).unplaced := by
  simp [Split.push, Split.unplaced]

private theorem map_push_unplaced (tokens : List Token) (found : Option Split) :
    (found.map Split.unplaced).map (·.push (tokens.map Token.unplaced)) =
      (found.map (·.push tokens)).map Split.unplaced := by
  cases found with
  | none => rfl
  | some split => exact congrArg some (push_unplaced tokens split)

/-- The search for a token outside all brackets, for tokens that are wanted for what they say. -/
theorem splitOutside_unplaced {wanted : Option Token → Token → Bool}
    (same : ∀ previous t, wanted (previous.map Token.unplaced) t.unplaced = wanted previous t)
    (previous : Option Token) (parens braces : Int) (ts : List Token) :
    splitOutside? wanted (previous.map Token.unplaced) parens braces (ts.map Token.unplaced) =
      (splitOutside? wanted previous parens braces ts).map Split.unplaced := by
  match ts with
  | [] =>
    rw [List.map_nil, splitOutside?, splitOutside?]
    rfl
  | t :: rest =>
    rw [List.map_cons, splitOutside?, splitOutside?]
    simp only [same, passLength_unplaced, unplaced_kind]
    split
    · rfl
    · split
      next n _ =>
        rw [← List.map_cons, List.getElem?_map, ← List.map_drop, ← List.map_take, ← List.map_cons,
          splitOutside_unplaced same _ parens braces (rest.drop (n - 1)), map_push_unplaced]
      · have here := splitOutside_unplaced same (some t) (parens + bracketStep .openParen .closeParen t.kind)
          (braces + bracketStep .openBrace .closeBrace t.kind) rest
        rw [Option.map_some] at here
        rw [here]
        exact map_push_unplaced [t] _
termination_by ts.length
decreasing_by all_goals grind

private theorem splitAt_unplaced (kinds : List TokenKind) (ts : List Token) :
    splitAt? kinds (ts.map Token.unplaced) = (splitAt? kinds ts).map Split.unplaced :=
  splitOutside_unplaced (fun _ _ => rfl) none 0 0 ts

private theorem statements_unplaced (ts : List Token) :
    statements (ts.map Token.unplaced) = (statements ts).unplaced := by
  fun_induction statements ts with
  | case1 =>
    rw [List.map_nil, statements]
    rfl
  | case2 t rest e failed =>
    rw [List.map_cons, statements, ← List.map_cons, segmentLength_unplaced, failed]
    rfl
  | case3 t rest n found ih =>
    rw [List.map_cons, statements, ← List.map_cons, segmentLength_unplaced, found]
    simp only [unplacing_ok, id, ← List.map_drop, ← List.map_take, ih]
    rfl

private theorem cutArguments_unplaced (last : Token) (depth : Int) (piece ts : List Token) :
    cutArguments last.unplaced depth (piece.map Token.unplaced) (ts.map Token.unplaced) =
      (cutArguments last depth piece ts).unplaced := by
  induction ts generalizing depth piece with
  | nil =>
    simp only [List.map_nil, cutArguments, List.isEmpty_map, ← List.map_reverse]
    split <;> rfl
  | cons t rest ih =>
    simp only [List.map_cons, cutArguments, unplaced_kind, List.isEmpty_map]
    split
    · split
      · rfl
      · have later := ih 0 []
        rw [List.map_nil] at later
        rw [later, ← List.map_reverse]
        rfl
    · exact ih _ (t :: piece)

private theorem arguments_unplaced (paren : Token) (inner : List Token) :
    arguments paren.unplaced (inner.map Token.unplaced) = (arguments paren inner).unplaced := by
  rw [arguments, arguments, List.isEmpty_map]
  split
  · rfl
  · exact cutArguments_unplaced paren 0 [] inner

/-- The rule looks at what tokens say only. -/
def Blind (rule : Rule) : Prop := ∀ t rest,
  rule t.unplaced (rest.map Token.unplaced) = unplacing (Option.map Shape.unplaced) (rule t rest)

private theorem groupRule_blind : Blind groupRule := by
  intro t rest
  simp only [groupRule, unplaced_kind, ← List.map_cons, closing_unplaced, List.length_map]
  split
  · split
    · rfl
    · split
      · rfl
      · split
        · rfl
        · simp [Shape.unplaced, List.map_dropLast]
  · rfl

private theorem blockRule_blind : Blind blockRule := by
  intro t rest
  simp only [blockRule, unplaced_kind, blockLength_unplaced]
  split
  · cases blockLength t rest with
    | error e => rfl
    | ok n =>
      simp only [unplacing_ok, id, List.length_cons, List.length_map, ← List.map_dropLast, statements_unplaced]
      split <;> rfl
  · rfl

private theorem returnRule_blind : Blind returnRule := by
  intro t rest
  simp only [returnRule, unplaced_kind, List.isEmpty_map]
  split
  · split <;> rfl
  · rfl

private theorem branchRule_blind : Blind branchRule := by
  intro t rest
  simp only [branchRule, unplaced_kind, branchLengths_unplaced]
  split
  · cases branchLengths t rest with
    | error e => rfl
    | ok parts =>
      simp only [unplacing_ok, id, List.length_cons, List.length_map, getD_unplaced, ← List.map_drop, ← List.map_take]
      split
      · rfl
      · cases parts.otherwise <;> rfl
  · rfl

private theorem loopRule_blind : Blind loopRule := by
  intro t rest
  simp only [loopRule, unplaced_kind, loopLengths_unplaced]
  split
  · cases loopLengths t rest with
    | error e => rfl
    | ok parts =>
      simp only [unplacing_ok, id, List.length_cons, List.length_map, getD_unplaced, ← List.map_drop, ← List.map_take]
      split <;> rfl
  · rfl

private theorem negationRule_blind : Blind negationRule := by
  intro t rest
  simp only [negationRule, unplaced_kind, List.isEmpty_map]
  split
  · split <;> rfl
  · rfl

private theorem leafRule_blind : Blind leafRule := by
  intro t rest
  simp only [leafRule, unplaced_kind, unplaced_lexeme, List.isEmpty_map]
  split
  · split
    case h_2 => split <;> rfl
    all_goals rfl
  · rfl

private theorem assignmentRule_blind : Blind assignmentRule := by
  intro t rest
  simp only [assignmentRule, ← List.map_cons, splitAt_unplaced]
  cases splitAt? assignmentKinds (t :: rest) with
  | none => rfl
  | some split =>
    simp only [Option.map_some, Split.unplaced, List.length_map, List.isEmpty_map, unplaced_kind]
    split
    · rfl
    · split
      · rfl
      · split <;> rfl

private theorem binaryShape_unplaced (function : String) (split : Split) :
    binaryShape function split.unplaced = unplacing (Option.map Shape.unplaced) (binaryShape function split) := by
  simp only [binaryShape, Split.unplaced, List.isEmpty_map]
  split
  · rfl
  · split <;> rfl

private theorem operatorRule_blind (kinds : List TokenKind) : Blind (operatorRule kinds) := by
  intro t rest
  simp only [operatorRule, ← List.map_cons, splitAt_unplaced]
  cases splitAt? kinds (t :: rest) with
  | none => rfl
  | some split => exact binaryShape_unplaced _ split

private theorem additiveRule_blind : Blind additiveRule := by
  intro t rest
  have found := @splitOutside_unplaced (fun previous t => isSign t.kind && previous.any (endsOperand ·.kind))
    (fun previous _ => by cases previous <;> rfl) none 0 0 (t :: rest)
  simp only [Option.map_none, List.map_cons] at found
  simp only [additiveRule, found]
  cases splitOutside? (fun previous t => isSign t.kind && previous.any (endsOperand ·.kind)) none 0 0 (t :: rest) with
  | none => rfl
  | some split =>
    have head : split.unplaced.after.head? = split.after.head?.map Token.unplaced := List.head?_map
    simp only [Option.map_some, head]
    cases split.after.head? with
    | none => exact binaryShape_unplaced _ split
    | some next =>
      simp only [Option.map_some]
      by_cases sign : isSign next.kind = true
      · rw [if_pos (show isSign next.unplaced.kind = _ from sign), if_pos sign]
        rfl
      · rw [if_neg (show ¬isSign next.unplaced.kind = _ from sign), if_neg sign]
        exact binaryShape_unplaced _ split

private theorem notRule_blind : Blind notRule := by
  intro t rest
  simp only [notRule, ← List.map_cons, splitAt_unplaced]
  cases splitAt? [.notWord] (t :: rest) with
  | none => rfl
  | some split =>
    simp only [Option.map_some, Split.unplaced, List.isEmpty_map]
    split
    · rfl
    · split <;> rfl

private theorem callRule_blind : Blind callRule := by
  intro t rest
  simp only [callRule, ← List.map_cons, ← List.map_reverse]
  cases (t :: rest).reverse with
  | nil => rfl
  | cons last front =>
    simp only [List.map_cons]
    by_cases closes : last.kind = .closeParen
    · rw [if_pos (show last.unplaced.kind = _ from closes), if_pos closes, ← List.map_cons, closing_unplaced]
      split
      · rfl
      · simp only [← List.map_drop, ← List.map_take, ← List.map_reverse, List.isEmpty_map, getD_unplaced,
          arguments_unplaced]
        split <;> rfl
    · rw [if_neg (show last.unplaced.kind ≠ _ from closes), if_neg closes]
      rfl

private theorem memberRule_blind : Blind memberRule := by
  intro t rest
  simp only [memberRule, ← List.map_cons, ← List.map_reverse]
  cases (t :: rest).reverse with
  | nil => rfl
  | cons name others =>
    cases others with
    | nil => rfl
    | cons dot base =>
      simp only [List.map_cons, unplaced_kind, unplaced_lexeme, List.isEmpty_map, ← List.map_reverse]
      split <;> rfl

private theorem rules_blind : ∀ rule ∈ rules, Blind rule := by
  intro rule member
  simp only [rules, List.mem_cons, List.not_mem_nil, or_false] at member
  rcases member with rfl | rfl | rfl | rfl | rfl | rfl | rfl | rfl | rfl | rfl | rfl | rfl | rfl |
    rfl | rfl | rfl
  · exact groupRule_blind
  · exact blockRule_blind
  · exact returnRule_blind
  · exact branchRule_blind
  · exact loopRule_blind
  · exact negationRule_blind
  · exact leafRule_blind
  · exact assignmentRule_blind
  · exact operatorRule_blind _
  · exact additiveRule_blind
  · exact operatorRule_blind _
  · exact operatorRule_blind _
  · exact operatorRule_blind _
  · exact notRule_blind
  · exact callRule_blind
  · exact memberRule_blind

private theorem firstShape_unplaced {candidates : List Rule} (blind : ∀ rule ∈ candidates, Blind rule) (t : Token)
    (rest : List Token) :
    firstShape t.unplaced (rest.map Token.unplaced) candidates =
      unplacing Shape.unplaced (firstShape t rest candidates) := by
  induction candidates with
  | nil => rfl
  | cons rule others ih =>
    obtain ⟨first, later⟩ := List.forall_mem_cons.mp blind
    rw [firstShape, firstShape, first]
    cases rule t rest with
    | error e => rfl
    | ok found =>
      cases found with
      | some shape => rfl
      | none => exact ih later

private theorem shape_unplaced (ts : List Token) :
    shape (ts.map Token.unplaced) = unplacing Shape.unplaced (shape ts) := by
  cases ts with
  | nil => rfl
  | cons t rest => exact firstShape_unplaced rules_blind t rest

private theorem mapM_unplaced {pieces : List (List Token)}
    (read : ∀ piece ∈ pieces, parse (piece.map Token.unplaced) = unplacing Node.unplaced (parse piece)) :
    (pieces.map (List.map Token.unplaced)).mapM parse = unplacing Node.unplacedAll (pieces.mapM parse) := by
  induction pieces with
  | nil => rfl
  | cons piece others ih =>
    obtain ⟨first, later⟩ := List.forall_mem_cons.mp read
    rw [List.map_cons, List.mapM_cons, List.mapM_cons, first, ih later]
    refine unplacing_bind _ fun node _ => unplacing_bind _ fun nodes _ => ?_
    rfl

private theorem build_unplaced {pieces : Pieces}
    (read : ∀ piece ∈ pieces.pieces, parse (piece.map Token.unplaced) = unplacing Node.unplaced (parse piece)) :
    (pieces.unplaced.build fun part _ => parse part) =
      unplacing Node.unplacedAll (pieces.build fun part _ => parse part) := by
  rw [build_eq, build_eq, Pieces.unplaced, mapM_unplaced read]
  refine unplacing_bind _ fun nodes _ => ?_
  cases pieces.trailing <;> rfl

/-- Putting together the parts that are read without places. -/
theorem shape_build_unplaced {found : Shape}
    (read : ∀ part ∈ found.parts, parse (part.map Token.unplaced) = unplacing Node.unplaced (parse part)) :
    (found.unplaced.build fun part _ => parse part) =
      unplacing Node.unplaced (found.build fun part _ => parse part) := by
  cases found with
  | leaf node => rfl
  | group inner => exact read inner (by simp [Shape.parts])
  | block position statements =>
    simp only [Shape.unplaced, Shape.build, build_unplaced read]
    exact unplacing_bind _ fun _ _ => rfl
  | ret position value =>
    simp only [Shape.unplaced, Shape.build, read value (by simp [Shape.parts])]
    exact unplacing_bind _ fun _ _ => rfl
  | branch position condition action otherwise =>
    simp only [Shape.unplaced, Shape.build, read condition (by simp [Shape.parts]), read action (by simp [Shape.parts])]
    refine unplacing_bind _ fun _ _ => unplacing_bind _ fun _ _ => ?_
    cases otherwise with
    | none => rfl
    | some last =>
      simp only [Option.map_some, read last (by simp [Shape.parts])]
      exact unplacing_bind _ fun _ _ => rfl
  | loop position condition action =>
    simp only [Shape.unplaced, Shape.build, read condition (by simp [Shape.parts]), read action (by simp [Shape.parts])]
    exact unplacing_bind _ fun _ _ => unplacing_bind _ fun _ _ => rfl
  | unary operator function operand =>
    simp only [Shape.unplaced, Shape.build, read operand (by simp [Shape.parts])]
    exact unplacing_bind _ fun _ _ => rfl
  | binary operator function left right =>
    simp only [Shape.unplaced, Shape.build, read left (by simp [Shape.parts]), read right (by simp [Shape.parts])]
    exact unplacing_bind _ fun _ _ => unplacing_bind _ fun _ _ => rfl
  | assign name value =>
    simp only [Shape.unplaced, Shape.build, read value (by simp [Shape.parts])]
    exact unplacing_bind _ fun _ _ => rfl
  | update name operator function value =>
    simp only [Shape.unplaced, Shape.build, read value (by simp [Shape.parts])]
    exact unplacing_bind _ fun _ _ => rfl
  | call position callee arguments =>
    obtain ⟨first, later⟩ := List.forall_mem_cons.mp read
    simp only [Shape.unplaced, Shape.build, first, build_unplaced later]
    exact unplacing_bind _ fun _ _ => unplacing_bind _ fun _ _ => rfl
  | member dot base name =>
    simp only [Shape.unplaced, Shape.build, read base (by simp [Shape.parts])]
    exact unplacing_bind _ fun _ _ => rfl

/-- A statement without a shape is not read. -/
theorem parse_unplaced (ts : List Token) :
    parse (ts.map Token.unplaced) = unplacing Node.unplaced (parse ts) := by
  have same := shape_unplaced ts
  cases shaped : shape ts with
  | error e =>
    rw [shaped] at same
    rw [parse_of_no_shape shaped, parse_of_no_shape same]
    rfl
  | ok found =>
    rw [shaped] at same
    rw [parse_of_shape shaped, parse_of_shape same]
    apply shape_build_unplaced
    intro part member
    have shorter := length_lt_of_mem_parts shaped member
    exact parse_unplaced part
termination_by ts.length

private theorem parseStatements_unplaced (ts : List Token) :
    parseStatements (ts.map Token.unplaced) = unplacing Node.unplacedAll (parseStatements ts) := by
  rw [parseStatements, statements_unplaced]
  exact build_unplaced fun piece _ => parse_unplaced piece

private theorem unplaced_of_words {others : List Token} (same : ts.map Token.word = others.map Token.word) :
    ts.map Token.unplaced = others.map Token.unplaced := by
  have words := congrArg (List.map fun word : TokenKind × String => (⟨word.1, word.2, {}⟩ : Token)) same
  rw [List.map_map, List.map_map] at words
  exact words

private theorem ok_of_unplacing {α β : Type} {f : α → β} {outcome : Except ParseError α} {v : α}
    (same : unplacing f (.ok v) = unplacing f outcome) : ∃ found, outcome = .ok found ∧ f found = f v := by
  cases outcome with
  | error e => cases same
  | ok found => exact ⟨found, rfl, (Except.ok.inj same).symm⟩

/-- Tokens that say the same are read as trees that differ in their places only. -/
theorem parse_words {others : List Token} {node : Node} (same : ts.map Token.word = others.map Token.word)
    (read : parse ts = .ok node) : ∃ found, parse others = .ok found ∧ found.unplaced = node.unplaced := by
  apply ok_of_unplacing
  rw [← read, ← parse_unplaced, ← parse_unplaced, unplaced_of_words same]

theorem parseStatements_words {others : List Token} {nodes : List Node}
    (same : ts.map Token.word = others.map Token.word) (read : parseStatements ts = .ok nodes) :
    ∃ found, parseStatements others = .ok found ∧ Node.unplacedAll found = Node.unplacedAll nodes := by
  apply ok_of_unplacing
  rw [← read, ← parseStatements_unplaced, ← parseStatements_unplaced, unplaced_of_words same]

end Scriptlet.Proofs.GrammarPlaces
