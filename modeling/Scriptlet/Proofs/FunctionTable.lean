import Scriptlet.Proofs.DeclarationPlacement
import Scriptlet.Proofs.TokenBlame

/-! The function table of a program. Declarations stand among the tokens at any depth, also inside each other. They are
taken out from the end, but which ones there are can be said without that: the tokens are woven from declarations and
from others. The table has the last declaration of each name, in the order in which these stand. -/

namespace Scriptlet.Proofs.FunctionTable
open Grammar GrammarSegments ConcreteSyntax DeclarationPlacement SegmentBounds SessionDeclaration TokenBlame

/-- What stands between the word of a declaration and its body. -/
inductive Head : List Token → String → List String → Prop where
  | intro {name opens closes : Token} {list : List Token} {params : List String} (named : name.kind = .ident)
      (opening : opens.kind = .openParen) (listed : Parameters list params) (closing : closes.kind = .closeParen) :
      Head (name :: opens :: (list ++ [closes])) name.lexeme params

/-- A declaration and how many tokens stand in front of its word. -/
structure Declared where
  index : Nat
  definition : Definition

/-- The tokens hold the given declarations, and `left` is what remains when these are taken out. So many tokens stand in
front of them, and behind them `after`, where all declarations are out. A declaration may have others inside it, at any
place; without those, it is a head and one statement, as far as that goes in front of what follows. -/
inductive Woven : List Token → Nat → List Token → List Declared → List Token → Prop where
  | nil {after : List Token} {start : Nat} : Woven after start [] [] []
  | plain {after ts left : List Token} {start : Nat} {t : Token} {ds : List Declared} (stays : t.kind ≠ .funcWord)
      (behind : Woven after (start + 1) ts ds left) : Woven after start (t :: ts) ds (t :: left)
  | declared {after inner rest head body left : List Token} {start : Nat} {word : Token} {d : Definition}
      {within ds : List Declared} (declares : word.kind = .funcWord)
      (inside : Woven (left ++ after) (start + 1) inner within (head ++ body))
      (behind : Woven after (start + 1 + inner.length) rest ds left) (headed : Head head d.name d.params)
      (ends : segmentLength (body ++ (left ++ after)) = .ok body.length) (read : parse body = .ok d.body) :
      Woven after start (word :: (inner ++ rest)) (⟨start, d⟩ :: (within ++ ds)) left

section Reading
variable {word : Token} {name : String} {params : List String} {ts rest : List Token} {d : Definition}

private theorem listed_of_parameters (found : parameters word name ts = .ok (params, rest)) :
    ∃ list closes, ts = list ++ closes :: rest ∧ closes.kind = .closeParen ∧ Listed list params := by
  fun_induction parameters word name ts generalizing params with
  | case1 => cases found
  | case2 => cases found
  | case3 => cases found
  | case4 => cases found
  | case5 param separator _ named divides ih =>
    obtain ⟨⟨others, _⟩, later, done⟩ := map_eq_ok found
    cases done
    obtain ⟨list, closes, rfl, closing, listed⟩ := ih later
    exact ⟨param :: separator :: list, closes, rfl, closing, .more (Decidable.not_not.mp named) divides listed⟩
  | case6 param closes _ named closing =>
    cases found
    exact ⟨[param], closes, rfl, closing, .one (Decidable.not_not.mp named)⟩
  | case7 => cases found

private theorem parameters_of_list (found : parameterList word name ts = .ok (params, rest)) :
    ∃ list closes, ts = list ++ closes :: rest ∧ closes.kind = .closeParen ∧ Parameters list params := by
  cases ts with
  | nil => cases found
  | cons first ts =>
    rw [parameterList] at found
    split at found
    next closing =>
      cases found
      exact ⟨[], first, rfl, closing, .none⟩
    · obtain ⟨list, closes, whole, closing, listed⟩ := listed_of_parameters found
      exact ⟨list, closes, whole, closing, .some listed⟩

/-- A declaration can be read exactly if it is written as one. -/
theorem declaration_iff : declaration word ts = .ok (d, rest) ↔ ∃ head body, ts = head ++ (body ++ rest) ∧
    Head head d.name d.params ∧ segmentLength (body ++ rest) = .ok body.length ∧ parse body = .ok d.body := by
  constructor
  · intro found
    unfold declaration at found
    split at found
    · cases found
    rename_i name ts
    split at found
    · cases found
    rename_i named
    split at found
    · cases found
    rename_i opens behind
    split at found
    · cases found
    rename_i opening
    obtain ⟨⟨params, body⟩, given, bodied⟩ := bind_eq_ok found
    obtain ⟨list, closes, rfl, closing, listed⟩ := parameters_of_list given
    dsimp only at bodied
    split at bodied
    · cases bodied
    obtain ⟨length, measured, bodied⟩ := bind_eq_ok bodied
    obtain ⟨node, parsed, done⟩ := bind_eq_ok bodied
    cases done
    have bound := (segmentLength_le measured).2
    refine ⟨_, body.take length, ?_,
      .intro (Decidable.not_not.mp named) (Decidable.not_not.mp opening) listed closing, ?_, parsed⟩
    · simp
    · rw [List.take_append_drop, measured, List.length_take, Nat.min_eq_left bound]
  · rintro ⟨head, body, rfl, headed, ends, parsed⟩
    have some : body ++ rest ≠ [] := by
      rw [← List.length_pos_iff]
      have bounds := segmentLength_le ends
      omega
    obtain ⟨function, params, node⟩ := d
    dsimp only at headed parsed
    cases headed with
    | intro named opening listed closing =>
      rw [List.cons_append, List.cons_append, List.append_assoc, List.singleton_append,
        declaration_header named opening listed closing some, ends]
      simp only [bind, Except.bind, List.take_left, List.drop_left, parsed]
      rfl

end Reading

/-- Takes all declarations out of a token list, the last one first, and keeps them all. -/
def gather (start : Nat) : List Token → Except ParseError (List Declared × List Token)
  | [] => .ok ([], [])
  | t :: rest => do
    let (ds, rest) ← gather (start + 1) rest
    if t.kind = .funcWord then
      let (d, rest) ← declaration t rest
      return (⟨start, d⟩ :: ds, rest)
    else return (ds, t :: rest)

section Gathering
variable {start : Nat} {t : Token} {ts us left after middle : List Token} {ds es : List Declared} {d : Definition}

private theorem gather_plain (stays : t.kind ≠ .funcWord) (found : gather (start + 1) ts = .ok (ds, left)) :
    gather start (t :: ts) = .ok (ds, t :: left) := by
  rw [gather, found]
  simp only [bind, Except.bind, if_neg stays]
  rfl

private theorem gather_word (declares : t.kind = .funcWord) (found : gather (start + 1) ts = .ok (ds, middle))
    (read : declaration t middle = .ok (d, left)) : gather start (t :: ts) = .ok (⟨start, d⟩ :: ds, left) := by
  rw [gather, found]
  simp only [bind, Except.bind, if_pos declares, read]
  rfl

theorem gather_cases (gathered : gather start (t :: ts) = .ok (ds, left)) :
    ∃ later middle, gather (start + 1) ts = .ok (later, middle) ∧
      ((t.kind = .funcWord ∧ ∃ d, declaration t middle = .ok (d, left) ∧ ds = ⟨start, d⟩ :: later) ∨
        (t.kind ≠ .funcWord ∧ ds = later ∧ left = t :: middle)) := by
  obtain ⟨⟨later, middle⟩, found, gathered⟩ := bind_eq_ok gathered
  dsimp only at gathered
  split at gathered
  next declares =>
    obtain ⟨⟨d, after⟩, read, done⟩ := bind_eq_ok gathered
    cases done
    exact ⟨later, middle, found, Or.inl ⟨declares, d, read, rfl⟩⟩
  next stays =>
    cases gathered
    exact ⟨_, middle, found, Or.inr ⟨stays, rfl, rfl⟩⟩

/-- Woven tokens in front of others add their declarations and leave what they leave. -/
theorem gather_of_woven (woven : Woven after start ts ds left)
    (behind : gather (start + ts.length) us = .ok (es, after)) :
    gather start (ts ++ us) = .ok (ds ++ es, left ++ after) := by
  induction woven generalizing us es with
  | nil => exact behind
  | plain stays _ ih =>
    apply gather_plain stays
    apply ih
    rw [← behind, List.length_cons]
    congr 1
    omega
  | @declared after inner rest head body left start word d within ds declares _ _ headed ends read ihInside ihBehind =>
    have later : gather (start + 1 + inner.length) (rest ++ us) = .ok (ds ++ es, left ++ after) := by
      apply ihBehind
      rw [← behind, List.length_cons, List.length_append]
      congr 1
      omega
    have found := ihInside later
    rw [List.append_assoc] at found
    rw [List.cons_append, List.append_assoc, List.cons_append, List.append_assoc]
    exact gather_word declares found (declaration_iff.mpr ⟨head, body, rfl, headed, ends, read⟩)

theorem Woven.split {front back : List Token} (woven : Woven after start ts ds (front ++ back)) :
    ∃ first second earlier later, ts = first ++ second ∧ ds = earlier ++ later ∧
      Woven (back ++ after) start first earlier front ∧ Woven after (start + first.length) second later back := by
  generalize whole : front ++ back = left at woven
  induction woven generalizing front with
  | nil =>
    obtain ⟨rfl, rfl⟩ := List.append_eq_nil_iff.mp whole
    exact ⟨[], [], [], [], rfl, rfl, .nil, .nil⟩
  | @plain after ts left start t ds stays behind ih =>
    cases front with
    | nil =>
      cases whole
      exact ⟨[], t :: ts, [], ds, rfl, rfl, .nil, .plain stays behind⟩
    | cons other front =>
      obtain ⟨rfl, shorter⟩ := List.cons.inj whole
      obtain ⟨first, second, earlier, later, rfl, rfl, wovenFirst, wovenSecond⟩ := ih shorter
      refine ⟨other :: first, second, earlier, later, rfl, rfl, .plain stays wovenFirst, ?_⟩
      rwa [List.length_cons, Nat.add_comm first.length, ← Nat.add_assoc]
  | @declared after inner rest head body left start word d within ds declares inside _ headed ends read _ ih =>
    obtain ⟨first, second, earlier, later, rfl, rfl, wovenFirst, wovenSecond⟩ := ih whole
    rw [← whole, List.append_assoc] at inside ends
    refine ⟨word :: (inner ++ first), second, ⟨start, d⟩ :: (within ++ earlier), later, by simp, by simp,
      .declared declares inside wovenFirst headed ends read, ?_⟩
    have place : start + (word :: (inner ++ first)).length = start + 1 + inner.length + first.length := by
      rw [List.length_cons, List.length_append]
      omega
    rwa [place]

private theorem woven_of_gather (gathered : gather start ts = .ok (ds, left)) : Woven [] start ts ds left := by
  induction ts generalizing start ds left with
  | nil =>
    cases gathered
    exact .nil
  | cons t ts ih =>
    obtain ⟨later, middle, found, ⟨declares, d, read, rfl⟩ | ⟨stays, rfl, rfl⟩⟩ := gather_cases gathered
    · obtain ⟨head, body, rfl, headed, ends, parsed⟩ := declaration_iff.mp read
      have woven := ih found
      rw [← List.append_assoc] at woven
      obtain ⟨inner, rest, within, ds, rfl, rfl, inside, behind⟩ := woven.split
      rw [← List.append_nil left] at ends
      exact .declared declares inside behind headed ends parsed
    · exact .plain stays (ih found)

private theorem woven_iff_gather : Woven [] start ts ds left ↔ gather start ts = .ok (ds, left) := by
  refine ⟨fun woven => ?_, woven_of_gather⟩
  have gathered : gather start (ts ++ []) = .ok (ds ++ [], left ++ []) := gather_of_woven woven rfl
  rwa [List.append_nil, List.append_nil, List.append_nil] at gathered

end Gathering

/-- The functions of these declarations. -/
def table (ds : List Declared) : List Definition := ds.foldr (fun d later => addDefinition d.definition later) []

/-- No declaration of the same name has its word further behind. -/
def isLast (ds : List Declared) (d : Declared) : Bool :=
  ds.all fun e => decide (e.definition.name = d.definition.name → e.index ≤ d.index)

/-- Where the words for declarations stand. -/
def wordIndices (start : Nat) (ts : List Token) : List Nat :=
  ((ts.zipIdx start).filter fun found => found.1.kind = .funcWord).map Prod.snd

section Table
variable {start : Nat} {ts left : List Token} {ds : List Declared} {functions : List Definition}

private theorem hoist_eq_gather (start : Nat) (ts : List Token) :
    hoist ts = (gather start ts).map fun found => (table found.1, found.2) := by
  induction ts generalizing start with
  | nil => rfl
  | cons t ts ih =>
    rw [hoist, gather, ih (start + 1)]
    cases gather (start + 1) ts with
    | error e => rfl
    | ok found =>
      simp only [bind, Except.bind, Except.map]
      split
      · cases declaration t found.2 with
        | error e => rfl
        | ok read => rfl
      · rfl

private theorem gather_of_hoist (start : Nat) (hoisted : hoist ts = .ok (functions, left)) :
    ∃ ds, gather start ts = .ok (ds, left) ∧ functions = table ds := by
  rw [hoist_eq_gather start] at hoisted
  obtain ⟨⟨ds, rest⟩, gathered, same⟩ := map_eq_ok hoisted
  cases same
  exact ⟨ds, gathered, rfl⟩

private theorem gather_indices (gathered : gather start ts = .ok (ds, left)) :
    ds.map Declared.index = wordIndices start ts := by
  induction ts generalizing start ds left with
  | nil =>
    cases gathered
    rfl
  | cons t ts ih =>
    obtain ⟨later, middle, found, ⟨declares, d, _, rfl⟩ | ⟨stays, rfl, _⟩⟩ := gather_cases gathered
    · simp [wordIndices, declares, ih found]
    · simp [wordIndices, stays, ih found]

private theorem wordIndices_increase (start : Nat) (ts : List Token) : (wordIndices start ts).Pairwise (· < ·) := by
  have among : (wordIndices start ts).Sublist ((ts.zipIdx start).map Prod.snd) := List.filter_sublist.map Prod.snd
  rw [List.zipIdx_map_snd] at among
  exact List.Pairwise.sublist among (List.pairwise_lt_range' 1)

private theorem mem_table_names {name : String} :
    name ∈ (table ds).map Definition.name ↔ ∃ d ∈ ds, d.definition.name = name := by
  induction ds with
  | nil => simp [table]
  | cons d ds ih =>
    have step : table (d :: ds) = addDefinition d.definition (table ds) := rfl
    rw [step, addDefinition, List.exists_mem_cons_iff, ← ih]
    split
    next taken =>
      obtain ⟨f, member, same⟩ := List.any_eq_true.mp taken
      refine ⟨Or.inr, fun named => named.elim (fun here => ?_) id⟩
      exact here ▸ eq_of_beq same ▸ List.mem_map_of_mem member
    · rw [List.map_cons, List.mem_cons, eq_comm]

/-- The last declaration of each name is in the table, and nothing else. -/
theorem table_eq_filter (increase : (ds.map Declared.index).Pairwise (· < ·)) :
    table ds = (ds.filter (isLast ds)).map Declared.definition := by
  induction ds with
  | nil => rfl
  | cons d ds ih =>
    obtain ⟨first, increase⟩ := List.pairwise_cons.mp increase
    have earlier : ∀ e ∈ ds, d.index < e.index := fun e member => first _ (List.mem_map_of_mem member)
    -- A declaration in front of the others makes none of them any less the last one of its name.
    have others : ds.filter (isLast (d :: ds)) = ds.filter (isLast ds) := by
      apply List.filter_congr
      intro e member
      have below := earlier e member
      simp only [isLast, List.all_cons, Bool.and_eq_right_iff_imp, decide_eq_true_eq]
      omega
    have last : isLast (d :: ds) d = true ↔ ¬∃ e ∈ ds, e.definition.name = d.definition.name := by
      simp only [isLast, List.all_cons, List.all_eq_true, Bool.and_eq_true, decide_eq_true_eq, Nat.le_refl, implies_true,
        true_and, not_exists, not_and]
      refine forall₂_congr fun e member => ⟨fun before same => ?_, fun differs same => absurd same differs⟩
      exact absurd (before same) (Nat.not_le.mpr (earlier e member))
    have taken : (table ds).any (·.name == d.definition.name) = true ↔
        ∃ e ∈ ds, e.definition.name = d.definition.name := by
      rw [← mem_table_names, List.any_eq_true, List.mem_map]
      simp only [beq_iff_eq]
    have step : table (d :: ds) = addDefinition d.definition (table ds) := rfl
    rw [step, addDefinition, List.filter_cons, others, ih increase]
    rw [ih increase] at taken
    by_cases again : ∃ e ∈ ds, e.definition.name = d.definition.name
    · rw [if_pos (taken.mpr again), if_neg fun found => last.mp found again]
    · rw [if_neg fun found => again (taken.mp found), if_pos (last.mpr again), List.map_cons]

end Table

/-- The program has the declarations and the rest that its tokens are woven from, and there is only one way in which they
are. Each word for a declaration belongs to one of them. -/
structure Tabulated (ts : List Token) (program : Program) (ds : List Declared) (left : List Token) : Prop where
  hoisted : hoist ts = .ok (program.functions, left)
  woven : ∀ es rest, Woven [] 0 ts es rest ↔ es = ds ∧ rest = left
  words : ds.map Declared.index = wordIndices 0 ts
  bare : ∀ t ∈ left, t.kind ≠ .funcWord
  main : parseStatements left = .ok program.statements
  functions : program.functions = (ds.filter (isLast ds)).map Declared.definition
  names : ∀ name, name ∈ program.functions.map Definition.name ↔ ∃ d ∈ ds, d.definition.name = name
  once : (program.functions.map Definition.name).Nodup

private theorem tabulated_of_fragment {ts : List Token} {program : Program} (read : parseFragment ts = .ok program) :
    ∃ ds left, Tabulated ts program ds left := by
  obtain ⟨left, hoisted, main⟩ := statements_of_fragment read
  obtain ⟨ds, gathered, functions⟩ := gather_of_hoist 0 hoisted
  have words := gather_indices gathered
  have increase := wordIndices_increase 0 ts
  rw [← words] at increase
  exact ⟨ds, left, {
    hoisted, words, main
    woven := fun es rest => by
      rw [woven_iff_gather, gathered, Except.ok.injEq, Prod.mk.injEq, eq_comm, @eq_comm _ _ rest]
    bare := bare_of_hoist hoisted
    functions := functions.trans (table_eq_filter increase)
    names := fun name => by rw [functions, mem_table_names]
    once := hoist_distinct hoisted }⟩

/-- The functions of a fragment are the last declarations of their names, in the order in which these stand, wherever in
the tokens that is; what is left holds no declaration, so that the error for one inside a statement never arises. -/
theorem functions_are_last_declarations :
    (∀ ts program, parseFragment ts = .ok program → ∃ ds left, Tabulated ts program ds left) ∧
    (∀ ts e, parseProgram ts = .error e ∨ parseFragment ts = .error e → e.fault ≠ .strayFunction) ∧
    ∀ us e, (∀ t ∈ us, t.kind ≠ .funcWord) → segmentLength us = .error e → e.fault ≠ .strayFunction := by
  refine ⟨fun ts program => tabulated_of_fragment, ?_, ?_⟩
  · intro ts e failed
    rcases failed with failed | failed
    · rcases parseProgram_names failed with rfl | early | ⟨_, _, _, common⟩
      · simp
      · exact early.ne_strayFunction
      · exact common.2
    · rcases parseFragment_names failed with early | ⟨_, _, _, common⟩
      · exact early.ne_strayFunction
      · exact common.2
  · intro us e bare failed
    by_cases filled : us = []
    · rw [(missingExpression_iff (Or.inl failed)).mpr filled]
      simp
    · exact ((segmentLength_blames filled failed).names bare).choose_spec.2.2.2

/-- `func add(x, y) x func outer() { func inner() 1 return inner() } func add(x) x`. -/
def sampleNested : List Token :=
  [⟨.funcWord, "func", {}⟩, ⟨.ident, "add", {}⟩, ⟨.openParen, "(", {}⟩, ⟨.ident, "x", {}⟩, ⟨.comma, ",", {}⟩,
    ⟨.ident, "y", {}⟩, ⟨.closeParen, ")", {}⟩, ⟨.ident, "x", {}⟩, ⟨.funcWord, "func", {}⟩, ⟨.ident, "outer", {}⟩,
    ⟨.openParen, "(", {}⟩, ⟨.closeParen, ")", {}⟩, ⟨.openBrace, "\x7b", {}⟩, ⟨.funcWord, "func", {}⟩,
    ⟨.ident, "inner", {}⟩, ⟨.openParen, "(", {}⟩, ⟨.closeParen, ")", {}⟩, ⟨.number, "1", {}⟩,
    ⟨.returnWord, "return", {}⟩, ⟨.ident, "inner", {}⟩, ⟨.openParen, "(", {}⟩, ⟨.closeParen, ")", {}⟩,
    ⟨.closeBrace, "\x7d", {}⟩, ⟨.funcWord, "func", {}⟩, ⟨.ident, "add", {}⟩, ⟨.openParen, "(", {}⟩,
    ⟨.ident, "x", {}⟩, ⟨.closeParen, ")", {}⟩, ⟨.ident, "x", {}⟩]

theorem sampleNested_tabulated :
    ∃ program ds left, parseFragment sampleNested = .ok program ∧ Tabulated sampleNested program ds left ∧
      ds.map Declared.index = [0, 8, 13, 23] ∧
      program.functions.map (fun d => (d.name, d.params)) = [("outer", []), ("inner", []), ("add", ["x"])] := by
  have signatures : ((parseFragment sampleNested).map fun program =>
      program.functions.map fun d => (d.name, d.params)) = .ok [("outer", []), ("inner", []), ("add", ["x"])] := by
    decide +kernel
  obtain ⟨program, read, same⟩ := map_eq_ok signatures
  obtain ⟨ds, left, tabulated⟩ := functions_are_last_declarations.1 sampleNested program read
  exact ⟨program, ds, left, read, tabulated, tabulated.words.trans (by decide), same⟩

end Scriptlet.Proofs.FunctionTable
