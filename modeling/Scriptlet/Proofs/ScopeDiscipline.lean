import Mathlib.Control.Monad.Basic
import Scriptlet.Proofs.EvalMoments
import Scriptlet.Proofs.ScopeView

/-! Which names are bound where. Evaluation gives back as many frames as it was given, and adds names to the
innermost one at most; a block adds none at all. So the global frame binds what was declared, and a program or a
session that assigns, returns or fails, at any depth, cannot make it bind anything else. -/

namespace Scriptlet.Proofs.ScopeDiscipline
open Eval EvalFuel StructuredReturn EvalChange EvalMoments ScopeView

/-- All frames that a program can reach, the innermost first and the global one last. -/
def scope (m : Machine) : List Frame := m.frames ++ [m.globals]

def innermost (m : Machine) : Frame := m.frames.headD m.globals

/-- The names that each frame of the scope binds. -/
def boundNames (m : Machine) : List (String → Bool) := (scope m).map Frame.binds

/-- No frame has come or gone, the innermost frame binds all the names it bound, and the others bind the same. -/
structure Disciplined (m after : Machine) : Prop where
  count : (scope after).length = (scope m).length
  outer : (scope after).tail.map Frame.binds = (scope m).tail.map Frame.binds
  inner : ∀ name, (innermost m).binds name = true → (innermost after).binds name = true

variable {m mid after : Machine}

private theorem scope_eq (m : Machine) : scope m = innermost m :: (scope m).tail := by
  rw [scope, innermost]
  cases m.frames <;> rfl

theorem length_scope (m : Machine) : (scope m).length = m.frames.length + 1 := by
  simp [scope]

private theorem disciplined_of_names (same : boundNames after = boundNames m) : Disciplined m after := by
  have parts : (innermost after).binds :: (scope after).tail.map Frame.binds =
      (innermost m).binds :: (scope m).tail.map Frame.binds := by
    rwa [← List.map_cons, ← List.map_cons, ← scope_eq, ← scope_eq]
  obtain ⟨first, rest⟩ := List.cons.inj parts
  refine ⟨?_, rest, fun name bound => by rwa [first]⟩
  have lengths := congrArg List.length same
  rwa [boundNames, boundNames, List.length_map, List.length_map] at lengths

theorem Disciplined.globals (disciplined : Disciplined m after) (inside : m.frames ≠ []) :
    after.frames ≠ [] ∧ after.globals.binds = m.globals.binds := by
  have count := disciplined.count
  rw [length_scope, length_scope] at count
  obtain ⟨frame, outer, frames⟩ := List.exists_cons_of_ne_nil inside
  rw [frames, List.length_cons] at count
  obtain ⟨other, others, reached⟩ : ∃ other others, after.frames = other :: others :=
    List.exists_cons_of_length_pos (by omega)
  have names := congrArg List.getLast? disciplined.outer
  rw [scope, scope, frames, reached] at names
  simp only [List.cons_append, List.tail_cons, List.map_append, List.map_cons, List.map_nil, List.getLast?_append,
    List.getLast?_singleton, Option.some_or, Option.some.injEq] at names
  exact ⟨reached ▸ List.cons_ne_nil _ _, names⟩

private theorem set_disciplined (m : Machine) (name : String) (value : Value) :
    Disciplined m (m.assign name value) := by
  rw [assign_eq]
  unfold setIn
  cases found : Machine.overwrite? name value m.frames with
  | some changed =>
    apply disciplined_of_names
    simp only [boundNames, scope, List.map_append, overwrite_binds found]
  | none =>
    cases frames : m.frames with
    | nil =>
      refine ⟨by simp [scope, frames], by simp [scope, frames], fun other bound => ?_⟩
      simp only [innermost, frames, List.headD_nil] at bound ⊢
      exact binds_set_mono bound
    | cons frame outer =>
      dsimp only
      split
      next bound =>
        apply disciplined_of_names
        simp only [boundNames, scope, frames, List.map_append, List.map_cons, binds_set_of_binds bound]
      · refine ⟨by simp [scope, frames], by simp [scope, frames], fun other bound => ?_⟩
        simp only [innermost, frames, List.headD_cons] at bound ⊢
        exact binds_set_mono bound

theorem block_names (inside : Disciplined (enterBlock m) after) : boundNames (leaveBlock after) = boundNames m := by
  obtain ⟨some, _⟩ := inside.globals (List.cons_ne_nil _ _)
  obtain ⟨frame, outer, frames⟩ := List.exists_cons_of_ne_nil some
  have names := inside.outer
  rw [scope, frames] at names
  simp only [boundNames, scope, leaveBlock, frames]
  exact names

theorem call_names {d : Definition} {args : List Value} (inside : Disciplined (beginCall m d args) after) :
    boundNames (endCall m after) = boundNames m := by
  obtain ⟨_, globals⟩ := inside.globals (List.cons_ne_nil _ _)
  have names : after.globals.binds = m.globals.binds := globals
  simp only [boundNames, scope, endCall, leaveCall, List.map_append, List.map_cons, List.map_nil, names]

theorem disciplined_respected : Respected Disciplined where
  refl _ := disciplined_of_names rfl
  trans first second := ⟨second.count.trans first.count, second.outer.trans first.outer,
    fun name bound => second.inner name (first.inner name bound)⟩
  assign := set_disciplined
  record _ _ := disciplined_of_names rfl
  write _ _ _ := disciplined_of_names rfl
  block inside := disciplined_of_names (block_names inside)
  call inside := disciplined_of_names (call_names inside)

private theorem eval_block_names {fuel : Nat} {position : Position} {nodes : List Node}
    {outcome : Except RuntimeError Value}
    (ran : eval fuel (.block position nodes) m = some (outcome, after)) : boundNames after = boundNames m := by
  cases fuel with
  | zero => cases ran
  | succ fuel =>
    rw [eval, inFrame_apply] at ran
    obtain ⟨⟨_, inside⟩, reached, done⟩ := Option.map_eq_some_iff.mp ran
    cases done
    exact block_names (evalStatements_within disciplined_respected fuel _ _ _ _ _ reached)

private theorem defineAll_binds (m : Machine) (functions : List Definition) (name : String) :
    (m.defineAll functions).globals.binds name = true ↔
      m.globals.binds name = true ∨ ∃ d ∈ functions, d.name = name := by
  induction functions generalizing m with
  | nil => simp [Machine.defineAll]
  | cons d functions ih =>
    have first : (m.define d).globals.binds name = true ↔ d.name = name ∨ m.globals.binds name = true := by
      rw [Machine.define, binds_set, Function.update_apply]
      by_cases same : name = d.name
      · simp [same]
      · simp [same, Ne.symm same]
    change ((m.define d).defineAll functions).globals.binds name = true ↔ _
    rw [ih, first, or_assoc, or_left_comm]
    simp only [List.mem_cons, exists_eq_or_imp]

private theorem not_binds_empty (name : String) : ({} : Frame).binds name = false := rfl

/-- The global frame binds just these names, and it is not the innermost one for what is about to be evaluated. -/
def Global (names : String → Bool) (now : Moment) : Prop :=
  now.machine.globals.binds = names ∧ (now.machine.frames ≠ [] ∨ ∃ p nodes, now.node = .block p nodes)

theorem Global.step {names : String → Bool} {now next : Moment} (starts : Starts now next)
    (global : Global names now) : Global names next := by
  have handed := starts.handed disciplined_respected
  obtain ⟨bound, inside⟩ := global
  obtain ⟨machine, node⟩ := next
  cases handed with
  | @part m _ _ plain changed =>
    have some : m.frames ≠ [] := inside.resolve_right fun ⟨p, nodes, same⟩ => plain p nodes same
    obtain ⟨still, same⟩ := changed.globals some
    exact ⟨same.trans bound, Or.inl still⟩
  | block changed =>
    obtain ⟨still, same⟩ := changed.globals (List.cons_ne_nil _ _)
    exact ⟨same.trans bound, Or.inl still⟩
  | @call m _ _ _ _ _ _ changed =>
    have some : m.frames ≠ [] := inside.resolve_right fun ⟨p, nodes, same⟩ => by cases same
    obtain ⟨_, same⟩ := changed.globals some
    exact ⟨same.trans bound, Or.inl (List.cons_ne_nil _ _)⟩

theorem Global.ends {names : String → Bool} {now : Moment} (global : Global names now) {fuel : Nat}
    {outcome : Except RuntimeError Value} (ran : eval fuel now.node now.machine = some (outcome, after)) :
    after.globals.binds = names := by
  obtain ⟨m, node⟩ := now
  obtain ⟨bound, some | ⟨p, nodes, rfl⟩⟩ := global
  · have changed := eval_within disciplined_respected fuel node m outcome after ran
    exact (changed.globals some).2.trans bound
  · have names := congrArg List.getLast? (eval_block_names ran)
    simp only [boundNames, scope, List.map_append, List.map_cons, List.map_nil, List.getLast?_append,
      List.getLast?_singleton, Option.some_or, Option.some.injEq] at names
    exact names.trans bound

/-- The frame binds these names and no others. -/
def BindsJust (frame : Frame) (names : String → Prop) : Prop := ∀ name, frame.binds name = true ↔ names name

/-- The global frame binds just these names at this moment, and again when the evaluation that starts now ends. -/
def BindsThroughout (names : String → Prop) (now : Moment) : Prop :=
  BindsJust now.machine.globals names ∧
    ∀ fuel outcome after, eval fuel now.node now.machine = some (outcome, after) → BindsJust after.globals names

theorem Global.throughout {bound : String → Bool} {names : String → Prop} {now : Moment} (global : Global bound now)
    (just : ∀ name, bound name = true ↔ names name) : BindsThroughout names now := by
  refine ⟨fun name => ?_, fun fuel outcome after ran name => ?_⟩
  · rw [global.1, just]
  · rw [global.ends ran, just]

def DeclaredBy (functions : List Definition) (name : String) : Prop := ∃ d ∈ functions, d.name = name

private theorem launch_binds (m : Machine) (functions : List Definition) (name : String) :
    (launch m functions).globals.binds name = true ↔ DeclaredBy functions name := by
  rw [launch, defineAll_binds, not_binds_empty]
  simp [DeclaredBy]

private theorem launch_throughout {functions : List Definition} {position : Position} {nodes : List Node} {now : Moment}
    (reached : Reaches ⟨launch m functions, .block position nodes⟩ now) : BindsThroughout (DeclaredBy functions) now :=
  Global.throughout (reached.induct Global.step ⟨rfl, Or.inr ⟨position, nodes, rfl⟩⟩) (launch_binds m functions)

/-- The machine on which the statements of a chunk start. -/
def chunkStart (m : Machine) (program : Program) : Machine :=
  { m.defineAll program.functions with frames := [m.session], returned := none, calls := [] }

private theorem runProgramChunk_eq (m : Machine) (fuel : Nat) (program : Program) :
    m.runProgramChunk fuel program =
      (evalStatements fuel .empty program.statements (chunkStart m program)).map fun (outcome, after) =>
        (outcome.map after.outcome, { after with session := after.frames.headD m.session, returned := none }) := by
  change (evalStatements fuel .empty program.statements (chunkStart m program)).bind _ = _
  cases evalStatements fuel .empty program.statements (chunkStart m program) <;> rfl

/-- A chunk cannot be read, or its statements are evaluated and the innermost frame is kept for the session. -/
theorem runChunk_cases {fuel : Nat} {file text : String} {outcome : Except Failure Value}
    (ran : m.runChunk fuel file text = some (outcome, after)) :
    (∃ e, Program.ofFragment text = .error e ∧ outcome = .error (.source e) ∧ after = m.setSource file text) ∨
    ∃ program result reached, Program.ofFragment text = .ok program ∧
      evalStatements fuel .empty program.statements (chunkStart (m.setSource file text) program) =
        some (result, reached) ∧
      outcome = (result.map reached.outcome).mapError .runtime ∧
      after = { reached with session := reached.frames.headD m.session, returned := none } := by
  rw [Machine.runChunk] at ran
  split at ran
  next e unread =>
    cases ran
    exact Or.inl ⟨e, unread, rfl, rfl⟩
  next program read =>
    obtain ⟨⟨_, done⟩, ran, same⟩ := Option.bind_eq_some_iff.mp ran
    cases same
    rw [runProgramChunk_eq] at ran
    obtain ⟨⟨result, reached⟩, evaluated, same⟩ := Option.map_eq_some_iff.mp ran
    cases same
    exact Or.inr ⟨program, result, reached, read, evaluated, rfl, rfl⟩

theorem runChunk_read {fuel : Nat} {file text : String} {program : Program} {result : Except RuntimeError Value}
    {reached : Machine} (read : Program.ofFragment text = .ok program)
    (evaluated : evalStatements fuel .empty program.statements (chunkStart (m.setSource file text) program) =
      some (result, reached)) :
    m.runChunk fuel file text = some ((result.map reached.outcome).mapError .runtime,
      { reached with session := reached.frames.headD m.session, returned := none }) := by
  rw [Machine.runChunk]
  simp only [read, runProgramChunk_eq, evaluated]
  rfl

theorem runChunk_unread {fuel : Nat} {file text : String} {e : SourceError}
    (unread : Program.ofFragment text = .error e) :
    m.runChunk fuel file text = some (.error (.source e), m.setSource file text) := by
  rw [Machine.runChunk]
  simp only [unread]

/-- One of the texts can be read as a chunk and declares a function of that name. -/
def DeclaredIn (texts : List String) (name : String) : Prop :=
  ∃ text ∈ texts, ∃ program, Program.ofFragment text = .ok program ∧ DeclaredBy program.functions name

private theorem declaredIn_nil (name : String) : ¬ DeclaredIn [] name := by
  simp [DeclaredIn]

private theorem declaredIn_read {texts : List String} {text : String} {program : Program}
    (read : Program.ofFragment text = .ok program) (name : String) :
    DeclaredIn (texts ++ [text]) name ↔ DeclaredIn texts name ∨ DeclaredBy program.functions name := by
  simp only [DeclaredIn, List.mem_append, List.mem_singleton, or_and_right, exists_or, exists_eq_left, read,
    Except.ok.injEq, exists_eq_left']

private theorem declaredIn_unread {texts : List String} {text : String} {e : SourceError}
    (unread : Program.ofFragment text = .error e) (name : String) :
    DeclaredIn (texts ++ [text]) name ↔ DeclaredIn texts name := by
  simp only [DeclaredIn, List.mem_append, List.mem_singleton, or_and_right, exists_or, exists_eq_left, unread,
    reduceCtorEq, false_and, exists_false, or_false]

/-- A chunk adds the names it declares to the global frame, and no others. -/
theorem runChunk_binds {fuel : Nat} {file text : String} {outcome : Except Failure Value} {texts : List String}
    (before : BindsJust m.globals (DeclaredIn texts)) (ran : m.runChunk fuel file text = some (outcome, after)) :
    BindsJust after.globals (DeclaredIn (texts ++ [text])) := by
  intro name
  rcases runChunk_cases ran with ⟨e, unread, _, rfl⟩ | ⟨program, result, reached, read, evaluated, _, rfl⟩
  · exact (before name).trans (declaredIn_unread unread name).symm
  · have changed := evalStatements_within disciplined_respected fuel _ _ _ _ _ evaluated
    have globals : reached.globals.binds = ((m.setSource file text).defineAll program.functions).globals.binds :=
      (changed.globals (List.cons_ne_nil _ _)).2
    rw [globals, defineAll_binds, declaredIn_read read]
    exact or_congr_left (before name)

/-- The chunks that ran since the start, and the machine they left. -/
inductive Session (start : Machine) : List String → Machine → Prop where
  | start : Session start [] start
  | chunk {texts m fuel file text outcome after} (earlier : Session start texts m)
      (ran : m.runChunk fuel file text = some (outcome, after)) : Session start (texts ++ [text]) after

/-- The machine has just been made, or reset. -/
def Fresh (start : Machine) : Prop :=
  (∃ limit sink file, start = Machine.new limit sink file) ∨ ∃ earlier : Machine, start = earlier.reset

variable {start : Machine} {texts : List String}

theorem Session.binds (fresh : Fresh start) (session : Session start texts m) :
    BindsJust m.globals (DeclaredIn texts) := by
  induction session with
  | start =>
    have empty : start.globals = {} := by
      rcases fresh with ⟨_, _, _, rfl⟩ | ⟨_, rfl⟩ <;> rfl
    intro name
    simp [empty, not_binds_empty, declaredIn_nil]
  | chunk _ ran ih => exact runChunk_binds ih ran

/-- A moment of a chunk that runs on this machine. -/
def ReachedBy (m : Machine) (program : Program) (now : Moment) : Prop :=
  ∃ first, Among (chunkStart m program) program.statements first ∧ Reaches first now

theorem ReachedBy.throughout {file text : String} {program : Program} {now : Moment} (fresh : Fresh start)
    (session : Session start texts m) (read : Program.ofFragment text = .ok program)
    (reached : ReachedBy (m.setSource file text) program now) : BindsThroughout (DeclaredIn (texts ++ [text])) now := by
  obtain ⟨first, among, reached⟩ := reached
  obtain ⟨still, same⟩ := (among.changed disciplined_respected).globals (List.cons_ne_nil _ _)
  refine Global.throughout (reached.induct Global.step ⟨same, Or.inl still⟩) fun name => ?_
  rw [declaredIn_read read]
  exact (defineAll_binds ..).trans (or_congr_left (session.binds fresh name))

/-- Scope discipline. However the evaluation of a node ends, every frame is still there and binds the names it
bound; only the innermost may bind more, and not even that one if the node is a block. So while a program runs the
global frame binds just its functions, and in a session just the functions declared since it began. -/
theorem scope_discipline :
    (∀ fuel node m outcome after, eval fuel node m = some (outcome, after) → Disciplined m after) ∧
    (∀ fuel position nodes m outcome after, eval fuel (.block position nodes) m = some (outcome, after) →
      boundNames after = boundNames m) ∧
    (∀ (m : Machine) functions position nodes,
      (∀ now, Reaches ⟨launch m functions, .block position nodes⟩ now → BindsThroughout (DeclaredBy functions) now) ∧
      ∀ fuel outcome after, m.execute fuel functions (.block position nodes) = some (outcome, after) →
        BindsJust after.globals (DeclaredBy functions)) ∧
    (∀ start texts m, Fresh start → Session start texts m →
      BindsJust m.globals (DeclaredIn texts) ∧
      ∀ file text program now, Program.ofFragment text = .ok program → ReachedBy (m.setSource file text) program now →
        BindsThroughout (DeclaredIn (texts ++ [text])) now) := by
  refine ⟨?_, ?_, ?_, ?_⟩
  · intro fuel node m outcome after ran
    exact eval_within disciplined_respected fuel node m outcome after ran
  · intro fuel position nodes m outcome after ran
    exact eval_block_names ran
  · intro m functions position nodes
    refine ⟨fun now reached => launch_throughout reached, fun fuel outcome after ran => ?_⟩
    rw [execute_eq] at ran
    obtain ⟨_, ended, same⟩ := Option.map_eq_some_iff.mp ran
    cases same
    exact (launch_throughout .refl).2 fuel _ _ ended
  · intro start texts m fresh session
    exact ⟨session.binds fresh, fun file text program now read reached => reached.throughout fresh session read⟩

/-- `func f(x) { y = x { z = y return w } }`. -/
def sampleLeaky : Definition :=
  ⟨"f", ["x"], .block {} [.set {} "y" (.get {} "x"), .block {} [.set {} "z" (.get {} "y"), .ret {} (.get {} "w")]]⟩

/-- `{ a = true f(a) }`. -/
def sampleMain : List Node := [.set {} "a" (.const {} (.bool true)), .call {} (.get {} "f") [.get {} "a"]]

/-- The first chunk declares and assigns, the second cannot be read, and the third declares and fails. -/
def sampleChunks : List String :=
  ["func f(x) \x7b y = x return y \x7d z = f(1)", "func g() \x7b", "func h() \x7b \x7d v = w"]

/-- A program that fails in a block of a function leaves only that function among the globals, and a session with
two failures leaves only what it declared, whatever variables it set. -/
theorem sampleSession_binds_declared :
    (∃ e after, eval 19 (.block {} sampleMain) (launch (Machine.new 2 {} "") [sampleLeaky]) = some (.error e, after) ∧
      e.fault = .unknownVariable "w" ∧ Disciplined (launch (Machine.new 2 {} "") [sampleLeaky]) after ∧
      boundNames after = boundNames (launch (Machine.new 2 {} "") [sampleLeaky]) ∧
      BindsJust after.globals (DeclaredBy [sampleLeaky])) ∧
    ∃ m program now, Session (Machine.new 2 {} "") sampleChunks m ∧ m.session.binds "z" = true ∧
      BindsJust m.globals (DeclaredIn sampleChunks) ∧
      Program.ofFragment "k = z" = .ok program ∧ ReachedBy (m.setSource "" "k = z") program now ∧
      BindsThroughout (DeclaredIn (sampleChunks ++ ["k = z"])) now := by
  obtain ⟨evaluated, blocks, programs, sessions⟩ := scope_discipline
  constructor
  · have ran : (eval 19 (.block {} sampleMain) (launch (Machine.new 2 {} "") [sampleLeaky])).map Prod.fst =
        some (.error ⟨.unknownVariable "w", {}, "", "", ["f"]⟩) := by
      decide +kernel
    obtain ⟨⟨_, after⟩, ended, rfl⟩ := Option.map_eq_some_iff.mp ran
    exact ⟨_, after, ended, rfl, evaluated _ _ _ _ _ ended, blocks _ _ _ _ _ _ ended,
      ((programs _ _ _ _).1 _ .refl).2 _ _ _ ended⟩
  · have ran : (((Machine.new 2 {} "").runChunk 30 "" sampleChunks[0]).bind fun first =>
        (first.2.runChunk 30 "" sampleChunks[1]).bind fun second =>
          (second.2.runChunk 30 "" sampleChunks[2]).map fun third => third.2.session.binds "z") = some true := by
      decide +kernel
    obtain ⟨_, first, ran⟩ := Option.bind_eq_some_iff.mp ran
    obtain ⟨_, second, ran⟩ := Option.bind_eq_some_iff.mp ran
    obtain ⟨⟨_, m⟩, third, bound⟩ := Option.map_eq_some_iff.mp ran
    have session : Session (Machine.new 2 {} "") sampleChunks m :=
      ((Session.start.chunk first).chunk second).chunk third
    have parsed : ((Program.ofFragment "k = z").toOption.bind (·.statements.head?)).isSome = true := by
      decide +kernel
    obtain ⟨node, parsed⟩ := Option.isSome_iff_exists.mp parsed
    obtain ⟨program, read, head⟩ := Option.bind_eq_some_iff.mp parsed
    have read : Program.ofFragment "k = z" = .ok program := by
      cases fragment : Program.ofFragment "k = z" with
      | error e => simp [fragment, Except.toOption] at read
      | ok other => simpa [fragment, Except.toOption] using read
    obtain ⟨rest, statements⟩ := List.head?_eq_some_iff.mp head
    have reached : ReachedBy (m.setSource "" "k = z") program ⟨chunkStart (m.setSource "" "k = z") program, node⟩ :=
      ⟨_, statements ▸ .first, .refl⟩
    obtain ⟨declared, during⟩ := sessions _ _ _ (Or.inl ⟨2, {}, "", rfl⟩) session
    exact ⟨m, program, _, session, bound, declared, read, reached, during _ _ _ _ read reached⟩

end Scriptlet.Proofs.ScopeDiscipline
