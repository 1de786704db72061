import Scriptlet.Grammar.Program
import Scriptlet.Proofs.GrammarShapes

/-! What a stretch of tokens reads as, up to the places of its nodes. There is one rule for each
construct, from what its parts read as to what the whole reads as. -/

namespace Scriptlet.Node

mutual

def unplaced : Node → Node
  | absent => absent
  | unknown _ => unknown {}
  | block _ statements => block {} (unplacedAll statements)
  | branch _ condition action otherwise =>
    branch {} condition.unplaced action.unplaced otherwise.unplaced
  | loop _ condition action => loop {} condition.unplaced action.unplaced
  | .ret _ value => .ret {} value.unplaced
  | set _ name value => set {} name value.unplaced
  | get _ name => get {} name
  | const _ value => const {} value
  | call _ function arguments => call {} function.unplaced (unplacedAll arguments)
  | member _ base name => member {} base.unplaced name

def unplacedAll : List Node → List Node
  | [] => []
  | node :: nodes => node.unplaced :: unplacedAll nodes

end

theorem unplacedAll_eq_map (nodes : List Node) : unplacedAll nodes = nodes.map unplaced := by
  induction nodes with
  | nil => rw [unplacedAll, List.map_nil]
  | cons node nodes ih => rw [unplacedAll, List.map_cons, ih]

section Inversion
variable {node : Node}

theorem eq_const_of_unplaced {value : Value} (same : node.unplaced = const {} value) :
    ∃ position, node = const position value := by
  cases node <;> simp_all [unplaced]

theorem eq_get_of_unplaced {name : String} (same : node.unplaced = get {} name) :
    ∃ position, node = get position name := by
  cases node <;> simp_all [unplaced]

theorem eq_ret_of_unplaced {plain : Node} (same : node.unplaced = .ret {} plain) :
    ∃ position value, node = .ret position value ∧ value.unplaced = plain := by
  cases node with
  | ret position value => exact ⟨position, value, rfl, by simpa [unplaced] using same⟩
  | _ => simp [unplaced] at same

theorem eq_call_of_unplaced {plain : Node} {list : List Node} (same : node.unplaced = call {} plain list) :
    ∃ position function arguments,
      node = call position function arguments ∧ function.unplaced = plain ∧ arguments.map unplaced = list := by
  cases node with
  | call position function arguments =>
    exact ⟨position, function, arguments, rfl, by simpa [unplaced, unplacedAll_eq_map] using same⟩
  | _ => simp [unplaced] at same

end Inversion

end Scriptlet.Node

namespace Scriptlet.Proofs.GrammarReading
open Grammar GrammarNesting GrammarSegments GrammarShapes

theorem parse_of_shape {ts : List Token} {found : Shape} (shaped : shape ts = .ok found) :
    parse ts = found.build fun part _ => parse part := by
  rw [parse]
  split
  next wrong =>
    simp [shaped] at wrong
  next right =>
    cases shaped.symm.trans right
    rfl

theorem parse_of_no_shape {ts : List Token} {e : ParseError} (failed : shape ts = .error e) :
    parse ts = .error e := by
  rw [parse]
  split
  next found =>
    rw [failed] at found
    cases found
    rfl
  next found =>
    rw [failed] at found
    cases found

/-- The pieces are complete and read as the given trees. -/
def PiecesRead (pieces : Pieces) (nodes : List Node) : Prop :=
  ∃ found, (pieces.build fun part _ => parse part) = .ok found ∧ Node.unplacedAll found = nodes

/-- Tokens with nested brackets and without declarations. -/
structure Balanced (ts : List Token) : Prop where
  nested : Nested ts
  bare : ∀ t ∈ ts, t.kind ≠ .funcWord

structure Reads (ts : List Token) (node : Node) : Prop where
  balanced : Balanced ts
  parsed : ∃ found, parse ts = .ok found ∧ found.unplaced = node

/-- What can stand in parentheses. -/
structure ReadsInside (ts : List Token) (node : Node) : Prop extends Reads ts node where
  passed : Passed ts

/-- What can stand alone, with other statements around it. -/
structure ReadsAlone (ts : List Token) (node : Node) : Prop extends Reads ts node where
  segment : Segment ts
  starts : ∃ t ∈ ts.head?, startsStatement t.kind = true ∧ t.kind ≠ .elseWord

/-- What can stand in parentheses and alone. -/
structure ReadsAnywhere (ts : List Token) (node : Node) : Prop extends ReadsInside ts node, ReadsAlone ts node

/-- The statements of a block or a program. -/
structure ReadsAll (ts : List Token) (nodes : List Node) : Prop where
  balanced : Balanced ts
  stops : Stops ts
  parsed : PiecesRead (statements ts) nodes

structure ReadsList (ts : List Token) (nodes : List Node) : Prop where
  balanced : Balanced ts
  inside : Inside ts
  parsed : ∀ paren, PiecesRead (arguments paren ts) nodes

inductive Wraps : List Token → Node → Prop where
  | intro {first last : Token} {inner : List Token} {node : Node} (opens : first.kind = .openParen)
      (closes : last.kind = .closeParen) (content : ReadsInside inner node) :
      Wraps (first :: (inner ++ [last])) node

inductive Braces : List Token → List Node → Prop where
  | intro {first last : Token} {inner : List Token} {nodes : List Node} (opens : first.kind = .openBrace)
      (closes : last.kind = .closeBrace) (content : ReadsAll inner nodes) :
      Braces (first :: (inner ++ [last])) nodes

inductive Applies : List Token → List Node → Prop where
  | intro {first last : Token} {inner : List Token} {nodes : List Node} (opens : first.kind = .openParen)
      (closes : last.kind = .closeParen) (content : ReadsList inner nodes) :
      Applies (first :: (inner ++ [last])) nodes

variable {ts rest : List Token} {node : Node} {nodes : List Node} {t : Token}

theorem balanced_nil : Balanced [] := ⟨.nil, by simp⟩

theorem Balanced.cons {kind : TokenKind} (after : Balanced rest) (first : t.kind = kind)
    (plain : ¬IsBracket kind ∧ kind ≠ .funcWord) : Balanced (t :: rest) :=
  ⟨.plain (first ▸ plain.1) after.nested, List.forall_mem_cons.mpr ⟨first ▸ plain.2, after.bare⟩⟩

theorem Balanced.append (before : Balanced ts) (after : Balanced rest) : Balanced (ts ++ rest) :=
  ⟨before.nested.append after.nested, List.forall_mem_append.mpr ⟨before.bare, after.bare⟩⟩

theorem Balanced.wrap {last : Token} (inside : Balanced ts) (pair : IsPair t.kind last.kind) :
    Balanced (t :: (ts ++ [last])) := by
  have brackets : t.kind ≠ .funcWord ∧ last.kind ≠ .funcWord := by
    rcases pair with ⟨opens, closes⟩ | ⟨opens, closes⟩ <;> simp [opens, closes]
  refine ⟨.wrap pair inside.nested, List.forall_mem_cons.mpr ⟨brackets.1, List.forall_mem_append.mpr ⟨inside.bare, ?_⟩⟩⟩
  simpa using brackets.2

/-- Reading needs no more of the pieces than the pieces themselves. -/
theorem build_eq (pieces : Pieces) : (pieces.build fun part _ => parse part) =
    (pieces.pieces.mapM parse).bind fun nodes =>
      match pieces.trailing with
      | some e => .error e
      | none => .ok nodes := by
  have plain : (pieces.pieces.attach.mapM fun part => parse part.1) = pieces.pieces.mapM parse := by
    rw [List.mapM_subtype fun _ _ => rfl, List.unattach_attach]
  simp only [Pieces.build, plain]
  rfl

theorem build_push (piece : List Token) (others : Pieces) :
    ((others.push piece).build fun part _ => parse part) =
      (parse piece).bind fun node => (others.build fun part _ => parse part).map (node :: ·) := by
  simp only [build_eq, Pieces.push, List.mapM_cons]
  cases parse piece with
  | error e => rfl
  | ok node =>
    cases others.pieces.mapM parse with
    | error e => rfl
    | ok nodes => cases others.trailing <;> rfl

private theorem piecesRead_nil : PiecesRead ⟨[], none⟩ [] := ⟨[], rfl, rfl⟩

theorem PiecesRead.push {others : Pieces} (read : PiecesRead others nodes) (first : Reads ts node) :
    PiecesRead (others.push ts) (node :: nodes) := by
  obtain ⟨found, parsed, rfl⟩ := first.parsed
  obtain ⟨all, built, rfl⟩ := read
  refine ⟨found :: all, ?_, by simp [Node.unplacedAll]⟩
  rw [build_push, parsed, built]
  rfl

theorem Reads.ne_nil (read : Reads ts node) : ts ≠ [] := by
  obtain ⟨found, parsed, _⟩ := read.parsed
  rintro rfl
  rw [parse] at parsed
  simp [shape] at parsed

section Wraps

theorem Wraps.wrapped (wraps : Wraps ts node) : ∃ inner, Wrapped ts inner := by
  obtain ⟨opens, closes, content⟩ := wraps
  exact ⟨_, .intro opens closes content.balanced.nested⟩

theorem Wraps.balanced (wraps : Wraps ts node) : Balanced ts := by
  obtain ⟨opens, closes, content⟩ := wraps
  exact content.balanced.wrap (Or.inl ⟨opens, closes⟩)

theorem Wraps.ne_nil (wraps : Wraps ts node) : ts ≠ [] := by
  obtain ⟨inner, wrapped⟩ := wraps.wrapped
  exact wrapped.ne_nil

theorem Wraps.solid (wraps : Wraps ts node) : ∃ last, Solid ts last ∧ last.kind = .closeParen := by
  obtain ⟨opens, closes, content⟩ := wraps
  exact ⟨_, solid_wrapped opens closes content.passed, closes⟩

theorem Wraps.parsed (wraps : Wraps ts node) : ∃ found, parse ts = .ok found ∧ found.unplaced = node := by
  obtain ⟨opens, closes, content⟩ := wraps
  rw [parse_of_shape (shape_group (.intro opens closes content.balanced.nested) content.ne_nil)]
  exact content.parsed

end Wraps

section Braces

theorem Braces.braced (braces : Braces ts nodes) : ∃ first inner, Braced first ts inner ∧ ReadsAll inner nodes := by
  obtain ⟨opens, closes, content⟩ := braces
  exact ⟨_, _, .intro opens closes content.balanced.nested, content⟩

theorem Braces.balanced (braces : Braces ts nodes) : Balanced ts := by
  obtain ⟨opens, closes, content⟩ := braces
  exact content.balanced.wrap (Or.inr ⟨opens, closes⟩)

theorem Braces.solid (braces : Braces ts nodes) : ∃ last, Solid ts last ∧ last.kind = .closeBrace := by
  obtain ⟨opens, closes, content⟩ := braces
  exact ⟨_, solid_block opens closes content.balanced.nested, closes⟩

theorem Braces.last (braces : Braces ts nodes) : ∃ t ∈ ts.getLast?, t.kind = .closeBrace := by
  obtain ⟨_, closes, _⟩ := braces
  exact ⟨_, by simp [List.getLast?_cons], closes⟩

theorem Braces.segment (braces : Braces ts nodes) (stops : BlockStops rest) :
    segmentLength (ts ++ rest) = .ok ts.length := by
  obtain ⟨opens, closes, content⟩ := braces
  simpa using segment_block opens closes content.balanced.nested stops

theorem Braces.parsed (braces : Braces ts nodes) :
    ∃ found, parse ts = .ok found ∧ found.unplaced = .block {} nodes := by
  obtain ⟨first, inner, braced, content⟩ := braces.braced
  obtain ⟨found, built, rfl⟩ := content.parsed
  rw [parse_of_shape (shape_block braced)]
  refine ⟨.block first.position found, ?_, by rw [Node.unplaced]⟩
  simp only [Shape.build, built]
  rfl

/-- A condition ends in front of the block behind it. -/
theorem Wraps.segment {action : List Token} (wraps : Wraps ts node) (braces : Braces action nodes) :
    segmentLength (ts ++ (action ++ rest)) = .ok ts.length := by
  obtain ⟨opens, closes, content⟩ := wraps
  obtain ⟨brace, _, _⟩ := braces
  simpa using segment_condition opens closes content.passed brace

end Braces

/-- A stretch that is passed and does not begin with a word of its own can stand anywhere. -/
theorem Reads.anywhere (read : Reads (t :: rest) node) (passed : Passed (t :: rest))
    (starts : startsStatement t.kind = true)
    (plain : t.kind ∉ [TokenKind.ifWord, .whileWord, .returnWord, .elseWord]) :
    ReadsAnywhere (t :: rest) node := by
  simp only [List.mem_cons, List.not_mem_nil, or_false, not_or] at plain
  obtain ⟨branch, loop, ret, other⟩ := plain
  exact { read with passed, segment := passed.segment branch loop ret, starts := ⟨t, rfl, starts, other⟩ }

/-- The kinds of tokens that make an expression on their own. -/
def leafKinds : List TokenKind := [.ident, .number, .string, .trueWord, .falseWord]

theorem reads_leaf {leaf : Node} (kind : t.kind ∈ leafKinds)
    (taken : leafRule t [] = .ok (some (.leaf leaf))) : ReadsAnywhere [t] leaf.unplaced := by
  have facts : ∀ kind ∈ leafKinds, ¬IsBracket kind ∧ kind ≠ .funcWord ∧ isOrdinary kind = true ∧
      endsExpression kind = true ∧ startsStatement kind = true ∧ decides kind = false ∧
      kind ∉ [TokenKind.ifWord, .whileWord, .returnWord, .elseWord] := by decide
  obtain ⟨bracket, func, ordinary, ends, starts, undecided, word⟩ := facts _ kind
  have group : t.kind ≠ .openParen := fun found => bracket (Or.inl found)
  have read : Reads [t] leaf.unplaced := by
    refine ⟨balanced_nil.cons rfl ⟨bracket, func⟩, leaf, ?_, rfl⟩
    rw [parse_of_shape (shape_leaf group undecided taken)]
    rfl
  exact read.anywhere ((solid_ordinary ordinary).passed ends) starts word

/-- A token that is ordinary and no bracket goes in front of a part in parentheses. -/
theorem Solid.prepend {last : Token} (solid : Solid ts last) (ordinary : isOrdinary t.kind = true)
    (joined : endsExpression t.kind = false ∨ ts.head?.any (startsStatement ·.kind) = false)
    (some : ts ≠ []) : Solid (t :: ts) last :=
  (solid_ordinary ordinary).append solid joined some

theorem reads_assign {name operator : Token} {value : List Token} (named : name.kind = .ident)
    (assigns : operator.kind = .assign) (wraps : Wraps value node) :
    ReadsAnywhere (name :: operator :: value) (.set {} name.lexeme node) := by
  obtain ⟨last, solid, closes⟩ := wraps.solid
  obtain ⟨found, parsed, rfl⟩ := wraps.parsed
  have tail : Solid (operator :: value) last :=
    Solid.prepend solid (by simp [assigns, isOrdinary]) (Or.inl (by simp [assigns, endsExpression])) wraps.ne_nil
  have whole : Solid (name :: operator :: value) last :=
    Solid.prepend tail (by simp [named, isOrdinary]) (Or.inr (by simp [assigns, startsStatement])) (by simp)
  have read : Reads (name :: operator :: value) (.set {} name.lexeme found.unplaced) := by
    refine ⟨(wraps.balanced.cons assigns (by decide)).cons named (by decide), ?_⟩
    rw [parse_of_shape (shape_assign named assigns wraps.ne_nil)]
    refine ⟨.set name.position name.lexeme found, ?_, by rw [Node.unplaced]⟩
    simp only [Shape.build, parsed]
    rfl
  exact read.anywhere (whole.passed (by simp [closes, endsExpression])) (by simp [named, startsStatement])
    (by simp [named])

theorem reads_block (braces : Braces ts nodes) : ReadsAnywhere ts (.block {} nodes) := by
  obtain ⟨last, solid, closes⟩ := braces.solid
  have passed : Passed ts := solid.passed (by simp [closes, endsExpression])
  have read : Reads ts (.block {} nodes) := ⟨braces.balanced, braces.parsed⟩
  obtain ⟨opens, _, _⟩ := braces
  exact read.anywhere passed (by simp [opens, startsStatement]) (by simp [opens])

section Conditionals
variable {word : Token} {condition action : List Token}

/-- A conditional that ends in a block can stand anywhere once it is known to be a statement. -/
theorem Reads.construct (read : Reads (word :: ts) node) (segment : Segment (word :: ts))
    (kind : word.kind = .ifWord ∨ word.kind = .whileWord) (final : ∃ t ∈ ts.getLast?, t.kind = .closeBrace) :
    ReadsAnywhere (word :: ts) node := by
  obtain ⟨last, final, closes⟩ := final
  have starts : startsStatement word.kind = true ∧ word.kind ≠ .elseWord := by
    rcases kind with kind | kind <;> simp [kind, startsStatement]
  exact { read with
    passed := segment.passed kind final (by simp [closes, endsExpression])
    segment
    starts := ⟨word, rfl, starts⟩ }

private theorem getLast_append_braces (before : List Token) (braces : Braces ts nodes) :
    ∃ t ∈ (before ++ ts).getLast?, t.kind = .closeBrace := by
  obtain ⟨last, final, closes⟩ := braces.last
  exact ⟨last, by simp [List.getLast?_append, Option.mem_def.mp final], closes⟩

theorem Braces.ne_nil (braces : Braces ts nodes) : ts ≠ [] := by
  obtain ⟨⟩ := braces
  simp

theorem Stops.not_else (stops : Stops rest) : ∀ t ∈ rest.head?, t.kind ≠ .elseWord := by
  intro t member
  rcases stops t member with closes | starts
  · simp [closes]
  · exact starts.2

theorem reads_branch {actions : List Node} (kind : word.kind = .ifWord) (test : Wraps condition node)
    (braces : Braces action actions) :
    ReadsAnywhere (word :: (condition ++ action)) (.branch {} node (.block {} actions) .absent) := by
  obtain ⟨foundTest, parsedTest, rfl⟩ := test.parsed
  obtain ⟨foundAction, parsedAction, isBlock⟩ := braces.parsed
  have lengths (rest : List Token) (stops : Stops rest) :
      branchLengths word (condition ++ (action ++ rest)) = .ok ⟨condition.length, action.length, none⟩ :=
    branchLengths_plain (test.segment braces) (braces.segment stops.block) braces.ne_nil (Stops.not_else stops)
  have segment : Segment (word :: (condition ++ action)) := by
    intro rest stops
    rw [List.cons_append, List.append_assoc, segment_branch_word kind, lengths rest stops]
    simp only [Except.map, BranchLengths.total, List.length_cons, List.length_append]
    congr 1
    omega
  have read : Reads (word :: (condition ++ action))
      (.branch {} foundTest.unplaced (.block {} actions) .absent) := by
    refine ⟨(test.balanced.append braces.balanced).cons kind (by decide), ?_⟩
    have whole := lengths [] stops_nil
    rw [List.append_nil] at whole
    rw [parse_of_shape (shape_branch kind whole)]
    refine ⟨.branch word.position foundTest foundAction .absent, ?_, ?_⟩
    · simp only [Shape.build, parsedTest, parsedAction]
      rfl
    · rw [Node.unplaced, isBlock, Node.unplaced]
  exact read.construct segment (Or.inl kind) (getLast_append_braces condition braces)

theorem reads_choice {opposite : Token} {otherwise : List Token} {actions others : List Node}
    (kind : word.kind = .ifWord) (test : Wraps condition node) (braces : Braces action actions)
    (other : opposite.kind = .elseWord) (last : Braces otherwise others) :
    ReadsAnywhere (word :: (condition ++ (action ++ opposite :: otherwise)))
      (.branch {} node (.block {} actions) (.block {} others)) := by
  obtain ⟨foundTest, parsedTest, rfl⟩ := test.parsed
  obtain ⟨foundAction, parsedAction, isBlock⟩ := braces.parsed
  obtain ⟨foundOther, parsedOther, isOther⟩ := last.parsed
  have lengths (rest : List Token) (stops : Stops rest) :
      branchLengths word (condition ++ (action ++ opposite :: (otherwise ++ rest))) =
        .ok ⟨condition.length, action.length, some otherwise.length⟩ :=
    branchLengths_else (test.segment braces)
      (braces.segment (by simp [BlockStops, other, startsStatement])) braces.ne_nil other
      (last.segment stops.block) last.ne_nil
  have segment : Segment (word :: (condition ++ (action ++ opposite :: otherwise))) := by
    intro rest stops
    rw [List.cons_append, List.append_assoc, List.append_assoc, List.cons_append, segment_branch_word kind,
      lengths rest stops]
    simp only [Except.map, BranchLengths.total, List.length_cons, List.length_append]
    congr 1
    omega
  have read : Reads (word :: (condition ++ (action ++ opposite :: otherwise)))
      (.branch {} foundTest.unplaced (.block {} actions) (.block {} others)) := by
    have ending : Balanced (action ++ opposite :: otherwise) :=
      braces.balanced.append (last.balanced.cons other (by decide))
    refine ⟨(test.balanced.append ending).cons kind (by decide), ?_⟩
    have whole := lengths [] stops_nil
    rw [List.append_nil] at whole
    rw [parse_of_shape (shape_branch_else kind whole)]
    refine ⟨.branch word.position foundTest foundAction foundOther, ?_, ?_⟩
    · simp only [Shape.build, parsedTest, parsedAction, parsedOther]
      rfl
    · rw [Node.unplaced, isBlock, isOther]
  apply read.construct segment (Or.inl kind)
  rw [← List.append_assoc, List.append_cons]
  exact getLast_append_braces _ last

theorem reads_loop {actions : List Node} (kind : word.kind = .whileWord) (test : Wraps condition node)
    (braces : Braces action actions) :
    ReadsAnywhere (word :: (condition ++ action)) (.loop {} node (.block {} actions)) := by
  obtain ⟨foundTest, parsedTest, rfl⟩ := test.parsed
  obtain ⟨foundAction, parsedAction, isBlock⟩ := braces.parsed
  have lengths (rest : List Token) (stops : Stops rest) :
      loopLengths word (condition ++ (action ++ rest)) = .ok ⟨condition.length, action.length⟩ :=
    loopLengths_eq (test.segment braces) (braces.segment stops.block) braces.ne_nil
  have segment : Segment (word :: (condition ++ action)) := by
    intro rest stops
    rw [List.cons_append, List.append_assoc, segment_loop_word kind, lengths rest stops]
    simp only [Except.map, LoopLengths.total, List.length_cons, List.length_append]
    congr 1
    omega
  have read : Reads (word :: (condition ++ action)) (.loop {} foundTest.unplaced (.block {} actions)) := by
    refine ⟨(test.balanced.append braces.balanced).cons kind (by decide), ?_⟩
    have whole := lengths [] stops_nil
    rw [List.append_nil] at whole
    rw [parse_of_shape (shape_loop kind whole)]
    refine ⟨.loop word.position foundTest foundAction, ?_, ?_⟩
    · simp only [Shape.build, parsedTest, parsedAction]
      rfl
    · rw [Node.unplaced, isBlock]
  exact read.construct segment (Or.inr kind) (getLast_append_braces condition braces)

end Conditionals

section Calls
variable {callee given : List Token} {function : Node}

theorem readsList_nil : ReadsList [] [] :=
  ⟨balanced_nil, inside_nil, fun _ => piecesRead_nil⟩

/-- An argument in parentheses is cut as a whole. -/
theorem Wraps.cut (wraps : Wraps ts node) (paren : Token) (rest : List Token) :
    cutArguments paren 0 [] (ts ++ rest) = cutArguments paren 0 ts.reverse rest := by
  obtain ⟨opens, closes, content⟩ := wraps
  have pair : IsPair _ _ := Or.inl ⟨opens, closes⟩
  simpa using cutArguments_wrapped pair content.balanced.nested paren [] rest

theorem Wraps.reads (wraps : Wraps ts node) : Reads ts node := ⟨wraps.balanced, wraps.parsed⟩

theorem Wraps.readsList (wraps : Wraps ts node) : ReadsList ts [node] := by
  obtain ⟨last, solid, _⟩ := wraps.solid
  refine ⟨wraps.balanced, solid.inside, fun paren => ?_⟩
  have pieces : arguments paren ts = Pieces.push ts ⟨[], none⟩ := by
    have whole := wraps.cut paren []
    rw [List.append_nil] at whole
    rw [arguments, if_neg (by simpa using wraps.ne_nil), whole, cutArguments]
    simp [wraps.ne_nil, Pieces.push]
  rw [pieces]
  exact piecesRead_nil.push wraps.reads

theorem Wraps.readsList_cons {comma : Token} (wraps : Wraps ts node) (separates : comma.kind = .comma)
    (others : ReadsList rest nodes) (some : rest ≠ []) : ReadsList (ts ++ comma :: rest) (node :: nodes) := by
  obtain ⟨last, solid, _⟩ := wraps.solid
  refine ⟨wraps.balanced.append (others.balanced.cons separates (by decide)),
    solid.inside.comma separates others.inside, fun paren => ?_⟩
  have pieces : arguments paren (ts ++ comma :: rest) = (arguments paren rest).push ts := by
    rw [arguments, if_neg (by simp), wraps.cut, cutArguments, if_pos ⟨separates, rfl⟩,
      if_neg (by simpa using wraps.ne_nil), List.reverse_reverse, arguments, if_neg (by simpa using some)]
  rw [pieces]
  exact (others.parsed paren).push wraps.reads

theorem Applies.balanced (applies : Applies ts nodes) : Balanced ts := by
  obtain ⟨opens, closes, content⟩ := applies
  exact content.balanced.wrap (Or.inl ⟨opens, closes⟩)

theorem Applies.solid (applies : Applies ts nodes) : ∃ last, Solid ts last ∧ last.kind = .closeParen := by
  obtain ⟨opens, closes, content⟩ := applies
  exact ⟨_, solid_list opens closes content.inside, closes⟩

theorem Applies.head (applies : Applies ts nodes) : ts.head?.any (startsStatement ·.kind) = false := by
  obtain ⟨opens, _, _⟩ := applies
  simp [opens, startsStatement]

theorem Applies.ne_nil (applies : Applies ts nodes) : ts ≠ [] := by
  obtain ⟨⟩ := applies
  simp

private theorem parsed_call {position : Position} {pieces : Pieces}
    (shaped : shape ts = .ok (.call position callee pieces)) (read : PiecesRead pieces nodes)
    (parsed : ∃ found, parse callee = .ok found ∧ found.unplaced = function) :
    ∃ found, parse ts = .ok found ∧ found.unplaced = .call {} function nodes := by
  obtain ⟨callee, parsed, rfl⟩ := parsed
  obtain ⟨found, built, rfl⟩ := read
  rw [parse_of_shape shaped]
  refine ⟨.call position callee found, ?_, by rw [Node.unplaced]⟩
  simp only [Shape.build, parsed, bind, Except.bind, built]
  rfl

theorem reads_apply (named : t.kind = .ident) (applies : Applies given nodes) :
    ReadsAnywhere (t :: given) (.call {} (.get {} t.lexeme) nodes) := by
  obtain ⟨last, solid, closes⟩ := applies.solid
  have whole : Solid (t :: given) last :=
    Solid.prepend solid (by simp [named, isOrdinary]) (Or.inr applies.head) applies.ne_nil
  have name : ReadsAnywhere [t] (Node.get t.position t.lexeme).unplaced :=
    reads_leaf (by simp [named, leafKinds]) (by simp [leafRule, named])
  have read : Reads (t :: given) (.call {} (.get {} t.lexeme) nodes) := by
    refine ⟨applies.balanced.cons named (by decide), ?_⟩
    obtain ⟨opens, closes, content⟩ := applies
    exact parsed_call (shape_call_named named opens closes content.balanced.nested) (content.parsed _) name.parsed
  exact read.anywhere (whole.passed (by simp [closes, endsExpression])) (by simp [named, startsStatement])
    (by simp [named])

theorem reads_call (wraps : Wraps callee function) (applies : Applies given nodes) :
    ReadsInside (callee ++ given) (.call {} function nodes) := by
  obtain ⟨mid, before, _⟩ := wraps.solid
  obtain ⟨last, after, closes⟩ := applies.solid
  obtain ⟨inner, wrapped⟩ := wraps.wrapped
  have whole : Solid (callee ++ given) last := before.append after (Or.inr applies.head) applies.ne_nil
  refine ⟨⟨wraps.balanced.append applies.balanced, ?_⟩, whole.passed (by simp [closes, endsExpression])⟩
  obtain ⟨opens, closes, content⟩ := applies
  obtain ⟨position, shaped⟩ := shape_call_wrapped wrapped opens closes content.balanced.nested
  exact parsed_call shaped (content.parsed _) wraps.parsed

end Calls

section Operators
variable {operator : Token} {left right : List Token} {first second : Node}

private theorem reads_prefix {function : String} (wraps : Wraps right node)
    (shaped : shape (operator :: right) = .ok (.unary operator function right))
    (kind : operator.kind = .minus ∨ operator.kind = .notWord) :
    ReadsInside (operator :: right) (.call {} (.get {} function) [node]) := by
  obtain ⟨last, solid, closes⟩ := wraps.solid
  obtain ⟨found, parsed, rfl⟩ := wraps.parsed
  have facts : isOrdinary operator.kind = true ∧ endsExpression operator.kind = false ∧
      ¬IsBracket operator.kind ∧ operator.kind ≠ .funcWord := by
    rcases kind with kind | kind <;> rw [kind] <;> decide
  have whole : Solid (operator :: right) last := Solid.prepend solid facts.1 (Or.inl facts.2.1) wraps.ne_nil
  refine ⟨⟨wraps.balanced.cons rfl facts.2.2, ?_⟩, whole.passed (by simp [closes, endsExpression])⟩
  rw [parse_of_shape shaped]
  refine ⟨operatorCall operator function [found], ?_, by simp [operatorCall, Node.unplaced, Node.unplacedAll]⟩
  simp only [Shape.build, parsed]
  rfl

theorem reads_negation (sign : operator.kind = .minus) (wraps : Wraps right node) :
    ReadsInside (operator :: right) (.call {} (.get {} "__negate") [node]) :=
  reads_prefix wraps (shape_negation sign wraps.ne_nil) (Or.inl sign)

theorem reads_not (word : operator.kind = .notWord) (wraps : Wraps right node) :
    ReadsInside (operator :: right) (.call {} (.get {} "__not") [node]) := by
  obtain ⟨inner, wrapped⟩ := wraps.wrapped
  exact reads_prefix wraps (shape_not word wrapped) (Or.inr word)

theorem reads_binary (lhs : Wraps left first) (rhs : Wraps right second) (binary : operator.kind ∈ binaryKinds) :
    ReadsInside (left ++ operator :: right)
      (.call {} (.get {} (operatorFunction operator.kind)) [first, second]) := by
  have facts : ∀ kind ∈ binaryKinds, isOrdinary kind = true ∧ endsExpression kind = false ∧
      startsStatement kind = false ∧ ¬IsBracket kind ∧ kind ≠ .funcWord := by decide
  obtain ⟨ordinary, ends, starts, plain⟩ := facts _ binary
  obtain ⟨_, before, _⟩ := lhs.solid
  obtain ⟨last, after, closes⟩ := rhs.solid
  obtain ⟨innerLeft, wrappedLeft⟩ := lhs.wrapped
  obtain ⟨innerRight, wrappedRight⟩ := rhs.wrapped
  obtain ⟨foundLeft, parsedLeft, rfl⟩ := lhs.parsed
  obtain ⟨foundRight, parsedRight, rfl⟩ := rhs.parsed
  have tail : Solid (operator :: right) last := Solid.prepend after ordinary (Or.inl ends) rhs.ne_nil
  have whole : Solid (left ++ operator :: right) last :=
    before.append tail (Or.inr (by simp [starts])) (by simp)
  refine ⟨⟨lhs.balanced.append (rhs.balanced.cons rfl plain), ?_⟩, whole.passed (by simp [closes, endsExpression])⟩
  rw [parse_of_shape (shape_binary (wrappedLeft.side _) (wrappedRight.side _) binary)]
  refine ⟨operatorCall operator (operatorFunction operator.kind) [foundLeft, foundRight], ?_,
    by simp [operatorCall, Node.unplaced, Node.unplacedAll]⟩
  simp only [Shape.build, parsedLeft, parsedRight]
  rfl

theorem reads_member {dot name : Token} (wraps : Wraps left node) (dotted : dot.kind = .dot)
    (named : name.kind = .ident) : ReadsInside (left ++ [dot, name]) (.member {} node name.lexeme) := by
  obtain ⟨_, before, _⟩ := wraps.solid
  obtain ⟨inner, wrapped⟩ := wraps.wrapped
  obtain ⟨found, parsed, rfl⟩ := wraps.parsed
  have last : Solid [name] name := solid_ordinary (by simp [named, isOrdinary])
  have tail : Solid [dot, name] name :=
    Solid.prepend last (by simp [dotted, isOrdinary]) (Or.inl (by simp [dotted, endsExpression])) (by simp)
  have whole : Solid (left ++ [dot, name]) name :=
    before.append tail (Or.inr (by simp [dotted, startsStatement])) (by simp)
  refine ⟨⟨wraps.balanced.append ((balanced_nil.cons named (by decide)).cons dotted (by decide)), ?_⟩,
    whole.passed (by simp [named, endsExpression])⟩
  rw [parse_of_shape (shape_member wrapped dotted named)]
  refine ⟨.member dot.position found name.lexeme, ?_, by rw [Node.unplaced]⟩
  simp only [Shape.build, parsed]
  rfl

end Operators

theorem Wraps.readsInside (wraps : Wraps ts node) : ReadsInside ts node := by
  obtain ⟨last, solid, closes⟩ := wraps.solid
  exact { wraps.reads with passed := solid.passed (by simp [closes, endsExpression]) }

/-- The first token of the value of a `return` must not look like the end of the block around it. -/
def StartsValue (ts : List Token) : Prop :=
  ∀ first ∈ ts.head?, first.kind ≠ .elseWord ∧ first.kind ≠ .closeBrace

theorem Wraps.startsValue (wraps : Wraps ts node) : StartsValue ts := by
  obtain ⟨opens, _, _⟩ := wraps
  simp [StartsValue, opens]

theorem reads_return (word : t.kind = .returnWord) (value : ReadsInside rest node) (starts : StartsValue rest) :
    ReadsAlone (t :: rest) (.ret {} node) := by
  obtain ⟨found, parsed, rfl⟩ := value.parsed
  refine ⟨⟨value.balanced.cons word (by decide), ?_⟩, segment_return word value.passed value.ne_nil starts,
    t, rfl, by simp [word, startsStatement]⟩
  rw [parse_of_shape (shape_return word value.ne_nil)]
  refine ⟨.ret t.position found, ?_, by rw [Node.unplaced]⟩
  simp only [Shape.build, parsed]
  rfl

theorem readsAll_nil : ReadsAll [] [] := by
  refine ⟨balanced_nil, stops_nil, ?_⟩
  rw [statements]
  exact piecesRead_nil

/-- A `return` without a value ends its block. -/
theorem readsAll_stop (word : t.kind = .returnWord) : ReadsAll [t] [.ret {} (.const {} .empty)] := by
  have read : Reads [t] (.ret {} (.const {} .empty)) := by
    refine ⟨balanced_nil.cons word (by decide), ?_⟩
    rw [parse_of_shape (shape_bare_return word)]
    exact ⟨_, rfl, by simp [Node.unplaced]⟩
  refine ⟨read.balanced, by simp [Stops, word, startsStatement], ?_⟩
  have length : segmentLength [t] = .ok 1 := by
    rw [segmentLength]
    simp [word]
  have pieces : statements [t] = Pieces.push [t] ⟨[], none⟩ := by
    rw [statements, length]
    simp [statements]
  rw [pieces]
  exact piecesRead_nil.push read

theorem ReadsAlone.readsAll (alone : ReadsAlone ts node) (others : ReadsAll rest nodes) :
    ReadsAll (ts ++ rest) (node :: nodes) := by
  obtain ⟨t, front, starts⟩ := alone.starts
  obtain ⟨tail, rfl⟩ := List.head?_eq_some_iff.mp front
  refine ⟨alone.balanced.append others.balanced, fun first member => ?_, ?_⟩
  · cases Option.mem_some_iff.mp member
    exact Or.inr starts
  have pieces : statements (t :: tail ++ rest) = (statements rest).push (t :: tail) := by
    have length := alone.segment rest others.stops
    rw [List.cons_append] at length ⊢
    rw [statements, length]
    simp
  rw [pieces]
  exact others.parsed.push alone.toReads

end Scriptlet.Proofs.GrammarReading
