import Scriptlet.Proofs.FormedProgram
import Scriptlet.Proofs.ScopeDiscipline
import Scriptlet.Proofs.TokenRendering
import Scriptlet.Proofs.ValueDiscipline

/-! Declaring functions in a session. Of several declarations of one name the last one counts, and it replaces what the
global frame bound to the name before. But the variables of the session lie in a frame of their own, and that frame is
searched first: a name that is already a variable there keeps its value, and the new function is out of reach. -/

namespace Scriptlet.Proofs.SessionDeclaration
open Grammar GrammarSegments GrammarReading ConcreteSyntax ProgramRendering SourceScan TokenRendering
open FormedProgram Eval EvalFuel StructuredReturn EvalChange ScopeView ScopeDiscipline ValueDiscipline

section Hoisting
variable {ts left : List Token} {t : Token} {functions : List Definition} {d : Definition}

/-- The last declaration of its name: it is read at one of the words `func`, with the declarations behind it taken
out, and none of those declares the name. -/
inductive LastDeclaration : List Token → Definition → Prop where
  | intro (before : List Token) {after left rest : List Token} {word : Token} {later : List Definition} {d : Definition}
      (starts : word.kind = .funcWord) (behind : hoist after = .ok (later, left))
      (read : declaration word left = .ok (d, rest)) (last : ∀ e ∈ later, e.name ≠ d.name) :
      LastDeclaration (before ++ word :: after) d

theorem hoist_cons_cases (hoisted : hoist (t :: ts) = .ok (functions, left)) :
    ∃ later middle, hoist ts = .ok (later, middle) ∧
      ((t.kind = .funcWord ∧ ∃ d, declaration t middle = .ok (d, left) ∧ functions = addDefinition d later) ∨
        (functions = later ∧ left = t :: middle)) := by
  obtain ⟨⟨later, middle⟩, found, hoisted⟩ := bind_eq_ok hoisted
  dsimp only at hoisted
  split at hoisted
  next word =>
    obtain ⟨⟨d, after⟩, declared, done⟩ := bind_eq_ok hoisted
    cases done
    exact ⟨later, middle, found, Or.inl ⟨word, d, declared, rfl⟩⟩
  · cases hoisted
    exact ⟨_, middle, found, Or.inr ⟨rfl, rfl⟩⟩

private theorem mem_addDefinition {e : Definition} {later : List Definition} :
    e ∈ addDefinition d later ↔ e ∈ later ∨ e = d ∧ ∀ f ∈ later, f.name ≠ d.name := by
  unfold addDefinition
  split
  next taken =>
    obtain ⟨f, member, same⟩ := List.any_eq_true.mp taken
    constructor
    · exact Or.inl
    · rintro (inside | ⟨_, free⟩)
      · exact inside
      · exact absurd (eq_of_beq same) (free f member)
  next free =>
    have free : ∀ f ∈ later, f.name ≠ d.name := by
      intro f member same
      exact free (List.any_eq_true.mpr ⟨f, member, beq_iff_eq.mpr same⟩)
    rw [List.mem_cons, or_comm]
    exact ⟨Or.imp_right fun same => ⟨same, free⟩, Or.imp_right And.left⟩

theorem hoist_distinct (hoisted : hoist ts = .ok (functions, left)) : (functions.map Definition.name).Nodup := by
  induction ts generalizing functions left with
  | nil =>
    cases hoisted
    exact .nil
  | cons t ts ih =>
    obtain ⟨later, middle, found, ⟨_, d, _, rfl⟩ | ⟨rfl, _⟩⟩ := hoist_cons_cases hoisted
    · unfold addDefinition
      split
      · exact ih found
      next free =>
        refine List.nodup_cons.mpr ⟨fun member => free ?_, ih found⟩
        obtain ⟨e, inside, same⟩ := List.mem_map.mp member
        exact List.any_eq_true.mpr ⟨e, inside, beq_iff_eq.mpr same⟩
    · exact ih found

theorem lastDeclaration_of_mem (hoisted : hoist ts = .ok (functions, left)) (member : d ∈ functions) :
    LastDeclaration ts d := by
  induction ts generalizing functions left with
  | nil =>
    cases hoisted
    cases member
  | cons t ts ih =>
    obtain ⟨later, middle, found, declared⟩ := hoist_cons_cases hoisted
    -- A declaration further behind stands behind this token as well.
    have further (inside : d ∈ later) : LastDeclaration (t :: ts) d := by
      obtain @⟨before, after, left, rest, word, others, _, starts, behind, read, last⟩ := ih found inside
      exact .intro (t :: before) starts behind read last
    rcases declared with ⟨word, e, read, rfl⟩ | ⟨rfl, _⟩
    · rcases mem_addDefinition.mp member with inside | ⟨rfl, last⟩
      · exact further inside
      · exact .intro [] word found read last
    · exact further member

private theorem mem_of_lastDeclaration (hoisted : hoist ts = .ok (functions, left)) (last : LastDeclaration ts d) :
    d ∈ functions := by
  obtain @⟨before, after, _, rest, word, others, _, starts, behind, read, last⟩ := last
  induction before generalizing functions left with
  | nil =>
    cases (hoist_declaration starts behind read).symm.trans hoisted
    exact mem_addDefinition.mpr (Or.inr ⟨rfl, last⟩)
  | cons t before ih =>
    obtain ⟨later, middle, found, ⟨_, e, _, rfl⟩ | ⟨rfl, _⟩⟩ := hoist_cons_cases hoisted
    · exact mem_addDefinition.mpr (Or.inl (ih found))
    · exact ih found

theorem mem_hoist_iff (hoisted : hoist ts = .ok (functions, left)) : d ∈ functions ↔ LastDeclaration ts d :=
  ⟨lastDeclaration_of_mem hoisted, mem_of_lastDeclaration hoisted⟩

theorem hoist_subset (hoisted : hoist ts = .ok (functions, left)) : left ⊆ ts := by
  induction ts generalizing functions left with
  | nil =>
    cases hoisted
    exact List.Subset.refl _
  | cons t ts ih =>
    obtain ⟨later, middle, found, ⟨_, d, read, _⟩ | ⟨_, rfl⟩⟩ := hoist_cons_cases hoisted
    · obtain ⟨taken, rfl, _⟩ := declaration_cut read
      have inside : left ⊆ ts := List.Subset.trans (List.subset_append_right taken left) (ih found)
      exact List.Subset.trans inside (List.subset_cons_self t ts)
    · exact List.cons_subset_cons t (ih found)

theorem LastDeclaration.named (last : LastDeclaration ts d) : ∃ t ∈ ts, t.kind = .ident ∧ t.lexeme = d.name := by
  obtain @⟨before, after, _, rest, word, others, _, starts, behind, read, last⟩ := last
  obtain ⟨name, _, _, _, _, _, rfl, named, _, _, _, _, same⟩ := declaration_parts read
  refine ⟨name, ?_, named, same.symm⟩
  have inside : name ∈ after := hoist_subset behind List.mem_cons_self
  exact List.mem_append_right before (List.mem_cons_of_mem word inside)

end Hoisting

section Declaring
variable {functions : List Definition} {d : Definition} {name : String}

private theorem defineAll_get_other (m : Machine) (free : ∀ e ∈ functions, e.name ≠ name) :
    (m.defineAll functions).globals.get? name = m.globals.get? name := by
  induction functions generalizing m with
  | nil => rfl
  | cons e functions ih =>
    obtain ⟨first, others⟩ := List.forall_mem_cons.mp free
    change ((m.define e).defineAll functions).globals.get? name = _
    rw [ih _ others, Machine.define, get_set, Function.update_of_ne (Ne.symm first)]

private theorem defineAll_get (m : Machine) (distinct : (functions.map Definition.name).Nodup)
    (member : d ∈ functions) :
    ∃ i, (m.defineAll functions).globals.get? d.name = some (.function ⟨d.name, i⟩) ∧
      (m.defineAll functions).definitions[i]? = some d := by
  induction functions generalizing m with
  | nil => cases member
  | cons e functions ih =>
    obtain ⟨free, others⟩ := List.nodup_cons.mp distinct
    change ∃ i, ((m.define e).defineAll functions).globals.get? d.name = _ ∧
      ((m.define e).defineAll functions).definitions[i]? = some d
    rcases List.mem_cons.mp member with rfl | later
    · refine ⟨m.definitions.size, ?_, ?_⟩
      · have other : ∀ e ∈ functions, e.name ≠ d.name := fun e inside same =>
          free (List.mem_map.mpr ⟨e, inside, same⟩)
        rw [defineAll_get_other _ other, Machine.define, get_set, Function.update_self]
      · rw [defineAll_definitions]
        simp [Machine.define]
    · exact ih (m.define e) others later

end Declaring

section Chunks
variable {m after : Machine} {fuel : Nat} {file text : String} {ts : List Token} {program : Program}

theorem runChunk_declarations {v : Value} (read : Program.ofFragment text = .ok program)
    (only : program.statements = []) (ran : m.runChunk fuel file text = some (.ok v, after)) :
    after.session = m.session ∧ after.globals = ((m.setSource file text).defineAll program.functions).globals ∧
      after.definitions = ((m.setSource file text).defineAll program.functions).definitions := by
  rcases runChunk_cases ran with ⟨e, unread, _⟩ | ⟨found, result, reached, again, evaluated, _, rfl⟩
  · cases read.symm.trans unread
  · cases read.symm.trans again
    rw [only] at evaluated
    cases fuel with
    | zero => cases evaluated
    | succ fuel =>
      cases evaluated
      exact ⟨rfl, rfl, rfl⟩

/-- A name in a text, taken as a text of its own, is a chunk that looks the name up. -/
theorem ofFragment_name {t : Token} (scanned : tokenize text = .ok ts) (member : t ∈ ts) (named : t.kind = .ident) :
    ∃ place start, Program.ofFragment t.lexeme = .ok ⟨[], start, [.get place t.lexeme]⟩ := by
  have proper := tokens_proper scanned t member
  have plain : t.word.1 ≠ .string := by
    rw [Token.word, named]
    simp
  have scans : Scans t.lexeme.toList [(.ident, t.lexeme)] [] := by
    have scans := proper.scans (Or.inl rfl)
    rwa [spelling_of_ne plain, Token.word, named] at scans
  obtain ⟨again, tokenized, words⟩ := scans.tokenize
  have alone : ReadsAlone again (.get {} t.lexeme) := (variable_read words).toReadsAlone
  have all := alone.readsAll readsAll_nil
  rw [List.append_nil] at all
  have hoisted : hoist (again ++ []) = .ok ([], again ++ []) := hoist_bare all.balanced.bare rfl
  rw [List.append_nil] at hoisted
  have some : again ≠ [] := by
    rintro rfl
    cases words
  obtain ⟨start, nodes, parsed, same⟩ := parseProgram_hoisted hoisted all some
  rw [Node.unplacedAll_eq_map] at same
  obtain ⟨node, rfl, plain⟩ := List.map_eq_singleton_iff.mp same
  obtain ⟨place, rfl⟩ := Node.eq_get_of_unplaced plain
  exact ⟨place, start, ofFragment_of_tokens tokenized (fragment_of_program parsed)⟩

private theorem evalStatements_get (fuel : Nat) (place : Position) {name : String} {value last : Value}
    (found : m.lookup name = some value) (idle : Idle m) :
    evalStatements (fuel + 2) last [.get place name] m = some (.ok value, m) := by
  have looked : eval (fuel + 1) (.get place name) m = some (.ok value, m) := by
    rw [eval_get, found]
  rw [evalStatements_cons, checked_normal looked idle]
  rfl

/-- A chunk that looks up a name that the global frame binds. The frame of the session comes first. -/
theorem runChunk_name (file : String) {name : String} {place start : Position} {value : Value}
    (read : Program.ofFragment name = .ok ⟨[], start, [.get place name]⟩) (bound : m.globals.get? name = some value)
    (enough : 2 ≤ fuel) :
    ∃ final, m.runChunk fuel file name = some (.ok ((m.session.get? name).getD value), final) ∧
      final.definitions = m.definitions := by
  obtain ⟨fuel, rfl⟩ := Nat.exists_eq_add_of_le' enough
  have found : (chunkStart (m.setSource file name) ⟨[], start, [.get place name]⟩).lookup name =
      some ((m.session.get? name).getD value) := by
    change ([m.session].findSome? (·.get? name)).or ((m.globals.get? name).or _) = _
    rw [List.findSome?_singleton, bound]
    cases m.session.get? name <;> rfl
  exact ⟨_, runChunk_read read (evalStatements_get fuel place found rfl), rfl⟩

end Chunks

/-- A declaration takes effect unless a variable of the session has its name. After a chunk that consists of
declarations only, and whose last declaration of a name is `d`, the name means the function that `d` declares; but
where the session has a variable of that name, it still means that variable. -/
theorem declared_name_means_function_or_variable (m after : Machine) (fuel more : Nat) (file other text : String)
    (ts : List Token) (program : Program) (v : Value) (d : Definition) (scanned : tokenize text = .ok ts)
    (read : parseFragment ts = .ok program) (only : program.statements = [])
    (ran : m.runChunk fuel file text = some (.ok v, after)) (last : LastDeclaration ts d) (enough : 2 ≤ more) :
    ∃ i final, final.definition ⟨d.name, i⟩ = d ∧
      after.runChunk more other d.name = some (.ok ((m.session.get? d.name).getD (.function ⟨d.name, i⟩)), final) := by
  obtain ⟨left, hoisted, _⟩ := statements_of_fragment read
  obtain ⟨session, globals, definitions⟩ := runChunk_declarations (ofFragment_of_tokens scanned read) only ran
  obtain ⟨i, bound, listed⟩ := defineAll_get (m.setSource file text) (hoist_distinct hoisted)
    ((mem_hoist_iff hoisted).mpr last)
  obtain ⟨t, member, named, same⟩ := last.named
  obtain ⟨place, start, named⟩ := ofFragment_name scanned member named
  rw [same] at named
  obtain ⟨final, shown, table⟩ := runChunk_name other named (globals ▸ bound) enough
  refine ⟨i, final, ?_, session ▸ shown⟩
  rw [Machine.definition, table, definitions, listed, Option.getD_some]

/-- `f` is declared twice, the second time around another declaration. -/
def sampleDeclarations : String :=
  "func f(a) \x7b return a \x7d func f(b, c) \x7b func g() \x7b return 2 \x7d return c \x7d"

/-- An earlier chunk has declared `f` and has then assigned to it. The new declarations replace what it assigned. -/
theorem sampleDeclarations_take_effect :
    ∃ first second ts program d i final,
      (Machine.new 0 {} "").runChunk 20 "a" "func f() \x7b return 1 \x7d f = true" = some (.ok .empty, first) ∧
      first.globals.get? "f" = some (.bool true) ∧ first.session.get? "f" = none ∧
      tokenize sampleDeclarations = .ok ts ∧ parseFragment ts = .ok program ∧ program.statements = [] ∧
      first.runChunk 20 "b" sampleDeclarations = some (.ok .empty, second) ∧ LastDeclaration ts d ∧
      d.name = "f" ∧ d.params = ["b", "c"] ∧ final.definition ⟨"f", i⟩ = d ∧
      second.runChunk 2 "c" "f" = some (.ok (.function ⟨"f", i⟩), final) := by
  have ran : ((Machine.new 0 {} "").runChunk 20 "a" "func f() \x7b return 1 \x7d f = true").bind (fun first =>
      (first.2.runChunk 20 "b" sampleDeclarations).bind fun second =>
        (tokenize sampleDeclarations).toOption.bind fun ts =>
          (parseFragment ts).toOption.map fun program => decide (
            first.1 = .ok .empty ∧ first.2.globals.get? "f" = some (.bool true) ∧
            first.2.session.get? "f" = none ∧ second.1 = .ok .empty ∧ program.statements.length = 0 ∧
            program.functions.map (fun d => (d.name, d.params)) = [("f", ["b", "c"]), ("g", [])])) = some true := by
    decide +kernel
  obtain ⟨⟨_, first⟩, once, ran⟩ := Option.bind_eq_some_iff.mp ran
  obtain ⟨⟨_, second⟩, twice, ran⟩ := Option.bind_eq_some_iff.mp ran
  obtain ⟨ts, scanned, ran⟩ := Option.bind_eq_some_iff.mp ran
  obtain ⟨program, parsed, shown⟩ := Option.map_eq_some_iff.mp ran
  obtain ⟨rfl, assigned, free, rfl, none, heads⟩ := of_decide_eq_true shown
  have scanned := ok_of_toOption scanned
  have parsed := ok_of_toOption parsed
  have only : program.statements = [] := List.length_eq_zero_iff.mp none
  obtain ⟨d, _, functions, head, _⟩ := List.map_eq_cons_iff.mp heads
  obtain ⟨left, hoisted, _⟩ := statements_of_fragment parsed
  have last : LastDeclaration ts d := (mem_hoist_iff hoisted).mp (functions ▸ List.mem_cons_self)
  obtain ⟨name, params⟩ := Prod.mk.inj head
  obtain ⟨i, final, meant, gives⟩ := declared_name_means_function_or_variable first second 20 2 "b" "c"
    sampleDeclarations ts program .empty d scanned parsed only twice last (by decide)
  rw [name] at meant gives
  rw [free] at gives
  exact ⟨first, second, ts, program, d, i, final, once, assigned, free, scanned, parsed, only, twice, last, name,
    params, meant, gives⟩

/-- The session has a variable `f` when the function is declared. The chunk `f` then gives the variable. -/
theorem variable_hides_declared_function :
    ((Machine.new 0 {} "").runChunk 10 "a" "f = 1").bind (fun first =>
      (first.2.runChunk 10 "b" "func f() \x7b return 2 \x7d").bind fun second =>
        (second.2.runChunk 10 "c" "f").map fun third => (third.1, (second.2.function? "f").map Definition.params)) =
      some (.ok (.number ⟨1, 1, false⟩), some []) := by
  decide +kernel

end Scriptlet.Proofs.SessionDeclaration
