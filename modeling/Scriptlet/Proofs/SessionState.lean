import Scriptlet.Proofs.CallIsolation
import Scriptlet.Proofs.CallStack
import Scriptlet.Proofs.FunctionTwins
import Scriptlet.Proofs.ScopeDiscipline

/-! What a session remembers. Chunks, whole programs and resets may follow each other on one machine in any order, and
each may succeed, return early or fail at any depth. All that a later step can tell of the earlier ones is what the
global frame and the session frame say, the depth limit and the sink. -/

namespace Scriptlet.Proofs.SessionState
open EvalChange EvalTwins CallIsolation CallStack FormedProgram FunctionTwins ScopeDiscipline ScopeView

inductive Step where
  | chunk (file text : String)
  | program (file text : String)
  | reset

def Step.run (fuel : Nat) (m : Machine) : Step → Option (Except Failure Value × Machine)
  | .chunk file text => m.runChunk fuel file text
  | .program file text => m.runSource fuel file text
  | .reset => some (.ok .empty, m.reset)

/-- A value as it shows outside its machine. Of a function that is its name and its definition, but not its place in
the table. -/
inductive Seen where
  | plain (v : Value)
  | function (name : String) (d : Definition)

def seen (m : Machine) : Value → Seen
  | .function f => .function f.name (m.definition f)
  | v => .plain v

/-- What is told of a failure: an error of the text itself, or what is said of a fault and the report of it. -/
abbrev Telling := SourceError ⊕ (String × String × Option String) × Report

def told : Failure → Telling
  | .source e => .inl e
  | .runtime e => .inr (report e)

structure Sight where
  result : Except Telling Seen
  sink : Sink
  session : List (String × Seen)
  functions : List (String × Definition)

def sight (outcome : Except Failure Value) (after : Machine) : Sight where
  result := (outcome.map (seen after)).mapError told
  sink := after.sink
  session := after.sessionEntries.map fun entry => (entry.1, seen after entry.2)
  functions := after.functions

/-- What is seen after each step, up to one that does not end with this fuel. -/
def observe (fuel : Nat) : List Step → Machine → List (Option Sight)
  | [], _ => []
  | step :: rest, m =>
    match step.run fuel m with
    | none => [none]
    | some (outcome, after) => some (sight outcome after) :: observe fuel rest after

/-- The machines that can come about, with the depth limit that was asked for. -/
inductive Reached (limit : Int) : Machine → Prop where
  | new (sink : Sink) (file : String) : Reached limit (Machine.new limit sink file)
  | step {m fuel step outcome after} (earlier : Reached limit m) (ran : Step.run fuel m step = some (outcome, after)) :
      Reached limit after

/-- The names in the frame differ, and each function in it is one of the table. -/
structure KeptFrame (table : Array Definition) (frame : Frame) : Prop where
  distinct : frame.names.Nodup
  listed : ∀ name f, frame.get? name = some (.function f) → ∃ d, table[f.index]? = some d ∧ Formed d.body

structure Kept (m : Machine) : Prop where
  globals : KeptFrame m.definitions m.globals
  session : KeptFrame m.definitions m.session

/-- What the frame says of each name. -/
def view (m : Machine) (frame : Frame) (name : String) : Option Seen := (frame.get? name).map (seen m)

structure SameState (m n : Machine) : Prop where
  globals : view m m.globals = view n n.globals
  session : view m m.session = view n n.session
  sink : m.sink = n.sink
  depthLimit : m.depthLimit = n.depthLimit

section Distinct
variable {frame : Frame} {name : String} {value : Value}

private theorem names_setEntry (entries : List (String × Value)) :
    (Frame.setEntry name value entries).map Prod.fst =
      if name ∈ entries.map Prod.fst then entries.map Prod.fst else entries.map Prod.fst ++ [name] := by
  induction entries with
  | nil => rfl
  | cons entry rest ih =>
    obtain ⟨key, old⟩ := entry
    rw [Frame.setEntry]
    by_cases same : key = name
    · simp [same]
    · rw [if_neg same, List.map_cons, ih]
      by_cases later : name ∈ rest.map Prod.fst
      · simp [later]
      · simp [later, Ne.symm same]

private theorem distinct_set (distinct : frame.names.Nodup) : (frame.set name value).names.Nodup := by
  unfold Frame.names at distinct ⊢
  rw [Frame.set, names_setEntry]
  split
  · exact distinct
  next missing =>
    refine List.nodup_append.mpr ⟨distinct, by simp, fun key member other last => ?_⟩
    rw [List.mem_singleton.mp last]
    rintro rfl
    exact missing member

/-- All frames that a program can reach have distinct names. -/
structure Tidy (m : Machine) : Prop where
  frames : ∀ frame ∈ m.frames, frame.names.Nodup
  globals : m.globals.names.Nodup

private theorem tidy_respected : Respected fun m after => Tidy m → Tidy after where
  refl _ tidy := tidy
  trans first second tidy := second (first tidy)
  assign m name value tidy := by
    obtain ⟨inner, outer⟩ := setIn_all (fun _ distinct => distinct_set distinct) tidy.frames tidy.globals
    rw [assign_eq]
    exact ⟨inner, outer⟩
  record _ _ tidy := ⟨tidy.frames, tidy.globals⟩
  write _ _ _ tidy := ⟨tidy.frames, tidy.globals⟩
  block inside tidy := by
    have after := inside ⟨List.forall_mem_cons.mpr ⟨.nil, tidy.frames⟩, tidy.globals⟩
    exact ⟨fun frame member => after.frames frame (List.mem_of_mem_tail member), after.globals⟩
  call {_ d args _} inside tidy := by
    have parameters : (Frame.ofParameters d.params args).names.Nodup :=
      @parameters_all (fun frame => frame.names.Nodup) .nil d.params args fun _ _ _ _ distinct => distinct_set distinct
    have after := inside ⟨List.forall_mem_singleton.mpr parameters, tidy.globals⟩
    exact ⟨tidy.frames, after.globals⟩

private theorem distinct_defineAll {m : Machine} (functions : List Definition) (distinct : m.globals.names.Nodup) :
    (m.defineAll functions).globals.names.Nodup := by
  induction functions generalizing m with
  | nil => exact distinct
  | cons d functions ih => exact @ih (m.define d) (distinct_set distinct)

end Distinct

/-- Both frames that outlast a step have distinct names. -/
structure Distinct (m : Machine) : Prop where
  globals : m.globals.names.Nodup
  session : m.session.names.Nodup

section Steps
variable {m n after final : Machine} {fuel : Nat} {file text : String} {outcome : Except Failure Value}

/-- A program cannot be read, or its main part is evaluated. -/
theorem runSource_cases (ran : m.runSource fuel file text = some (outcome, after)) :
    (∃ e, Program.ofSource text = .error e ∧ outcome = .error (.source e) ∧ after = m) ∨
    ∃ program result, Program.ofSource text = .ok program ∧
      eval fuel program.main (launch (m.setSource file text) program.functions) = some (result, after) ∧
      outcome = (result.map fun _ => after.outcome .empty).mapError .runtime := by
  rw [Machine.runSource] at ran
  split at ran
  next e unread =>
    cases ran
    exact Or.inl ⟨e, unread, rfl, rfl⟩
  next program read =>
    obtain ⟨⟨_, _⟩, ran, same⟩ := Option.bind_eq_some_iff.mp ran
    cases same
    rw [Machine.run, execute_eq] at ran
    obtain ⟨⟨result, _⟩, evaluated, same⟩ := Option.map_eq_some_iff.mp ran
    cases same
    exact Or.inr ⟨program, result, read, evaluated, rfl⟩

private theorem runSource_read {program : Program} {result : Except RuntimeError Value}
    (read : Program.ofSource text = .ok program)
    (evaluated : eval fuel program.main (launch (m.setSource file text) program.functions) = some (result, after)) :
    m.runSource fuel file text =
      some ((result.map fun _ => after.outcome .empty).mapError .runtime, after) := by
  rw [Machine.runSource, read]
  dsimp only
  rw [Machine.run, execute_eq, evaluated]
  rfl

private theorem runSource_unread {e : SourceError} (unread : Program.ofSource text = .error e) :
    m.runSource fuel file text = some (.error (.source e), m) := by
  rw [Machine.runSource, unread]

private theorem defineAll_source (m : Machine) (functions : List Definition) :
    (m.defineAll functions).source = m.source := by
  rw [defineAll_eq]

theorem launch_source (m : Machine) (functions : List Definition) : (launch m functions).source = m.source :=
  defineAll_source _ functions

private theorem launch_eq (m : Machine) (functions : List Definition) :
    launch m functions = { launch m functions with frames := [], returned := none, calls := [] } := by
  rw [launch, defineAll_eq]

theorem Distinct.step (distinct : Distinct m) {step : Step} (ran : step.run fuel m = some (outcome, after)) :
    Distinct after := by
  cases step with
  | reset =>
    cases ran
    exact ⟨.nil, .nil⟩
  | chunk file text =>
    rcases runChunk_cases ran with ⟨_, _, _, rfl⟩ | ⟨program, _, reached, _, evaluated, _, rfl⟩
    · exact ⟨distinct.globals, distinct.session⟩
    · have start : Tidy (chunkStart (m.setSource file text) program) :=
        ⟨List.forall_mem_singleton.mpr distinct.session, distinct_defineAll _ distinct.globals⟩
      have tidy := evalStatements_within tidy_respected fuel _ _ _ _ _ evaluated start
      refine ⟨tidy.globals, ?_⟩
      cases frames : reached.frames with
      | nil => simpa [frames] using distinct.session
      | cons frame outer => simpa [frames] using tidy.frames frame (frames ▸ List.mem_cons_self)
  | program file text =>
    rcases runSource_cases ran with ⟨_, _, _, rfl⟩ | ⟨program, _, _, evaluated, _⟩
    · exact distinct
    · have start : Tidy (launch (m.setSource file text) program.functions) := by
        rw [launch_eq]
        exact ⟨by simp, distinct_defineAll _ .nil⟩
      have tidy := eval_within tidy_respected fuel _ _ _ _ evaluated start
      have setting := eval_within sameSetting_respected fuel _ _ _ _ evaluated
      refine ⟨tidy.globals, ?_⟩
      rw [setting.session, launch, defineAll_eq]
      exact distinct.session

end Steps

section Likeness
variable {m n after final : Machine} {fuel : Nat} {v w : Value}

/-- The machines hold corresponding values between their steps, each by its own table. -/
structure Alike (m n : Machine) : Prop where
  globals : SameFrame (SameDefinition m.definitions n.definitions) m.globals n.globals
  session : SameFrame (SameDefinition m.definitions n.definitions) m.session n.session
  sink : m.sink = n.sink
  depthLimit : m.depthLimit = n.depthLimit

theorem Alike.symm (alike : Alike m n) : Alike n m :=
  ⟨sameFrame_symm (fun _ _ => SameDefinition.symm) alike.globals,
    sameFrame_symm (fun _ _ => SameDefinition.symm) alike.session,
    alike.sink.symm, alike.depthLimit.symm⟩

theorem Alike.setSource (alike : Alike m n) (file text : String) :
    Alike (m.setSource file text) (n.setSource file text) :=
  ⟨alike.globals, alike.session, alike.sink, alike.depthLimit⟩

theorem Alike.define (alike : Alike m n) {d : Definition} (formed : Formed d.body) :
    Alike (m.define d) (n.define d) where
  globals := (sameFrame_imp (fun _ _ stands => stands.push d) alike.globals).set (.function (sameDefinition_new formed))
  session := sameFrame_imp (fun _ _ stands => stands.push d) alike.session
  sink := alike.sink
  depthLimit := alike.depthLimit

theorem Alike.defineAll (alike : Alike m n) {functions : List Definition}
    (formed : ∀ d ∈ functions, Formed d.body) : Alike (m.defineAll functions) (n.defineAll functions) := by
  induction functions generalizing m n with
  | nil => exact alike
  | cons d functions ih =>
    obtain ⟨first, others⟩ := List.forall_mem_cons.mp formed
    exact ih (alike.define first) others

/-- With a scope of their own to run in, machines that are alike are beside each other. -/
theorem Alike.beside (alike : Alike m n) (source : m.source = n.source) {frames others : List Frame}
    (inner : List.Forall₂ (SameFrame (SameDefinition m.definitions n.definitions)) frames others) :
    Beside m.definitions n.definitions { m with frames, returned := none, calls := [] }
      { n with frames := others, returned := none, calls := [] } :=
  ⟨⟨rfl, rfl⟩, alike.globals, alike.session, inner, .none, rfl, source, alike.sink, alike.depthLimit⟩

theorem Alike.chunkStart (alike : Alike m n) (source : m.source = n.source) {program : Program}
    (formed : ∀ d ∈ program.functions, Formed d.body) :
    Beside (chunkStart m program).definitions (chunkStart n program).definitions (chunkStart m program)
      (chunkStart n program) := by
  have declared := alike.defineAll formed
  have still : (m.defineAll program.functions).source = (n.defineAll program.functions).source :=
    (defineAll_source m _).trans (source.trans (defineAll_source n _).symm)
  have inner := declared.session
  rw [congrArg Machine.session (defineAll_eq m _), congrArg Machine.session (defineAll_eq n _)] at inner
  exact declared.beside still (.cons inner .nil)

theorem Alike.launch (alike : Alike m n) (source : m.source = n.source) {functions : List Definition}
    (formed : ∀ d ∈ functions, Formed d.body) :
    Beside (launch m functions).definitions (launch n functions).definitions (launch m functions)
      (launch n functions) := by
  have ready : Alike { m with globals := {}, frames := [], returned := none, calls := [] }
      { n with globals := {}, frames := [], returned := none, calls := [] } :=
    ⟨sameFrame_empty, alike.session, alike.sink, alike.depthLimit⟩
  have declared : Alike (EvalChange.launch m functions) (EvalChange.launch n functions) := ready.defineAll formed
  have still : (EvalChange.launch m functions).source = (EvalChange.launch n functions).source :=
    (launch_source m _).trans (source.trans (launch_source n _).symm)
  have beside := declared.beside still .nil
  rwa [← launch_eq, ← launch_eq] at beside

private theorem seen_eq (same : SameValue (SameDefinition m.definitions n.definitions) v w) : seen m v = seen n w := by
  cases same with
  | plain isOther =>
    cases v with
    | function f => exact absurd rfl (isOther f)
    | _ => rfl
  | function stands =>
    obtain ⟨name, d, listed, same, _⟩ := stands
    simp only [seen, Machine.definition, listed, same, Option.getD_some, name]

/-- Steps that end alike and leave machines that are alike. -/
structure SameEnd (first second : Except Failure Value × Machine) : Prop where
  result : (first.1.map (seen first.2)).mapError told = (second.1.map (seen second.2)).mapError told
  alike : Alike first.2 second.2

theorem Beside.alike {table other : Array Definition} (beside : Beside table other m n) : Alike m n := by
  obtain ⟨rfl, rfl⟩ := beside.definitions
  exact ⟨beside.globals, beside.session, beside.sink, beside.depthLimit⟩

/-- What a run makes of its value is the same on both sides, if the machines have recorded the same. -/
theorem outcome_same {ref : FunctionRef → FunctionRef → Prop}
    (returned : Option.Rel (SameValue ref) m.returned n.returned) (same : SameValue ref v w) :
    SameValue ref (m.outcome v) (n.outcome w) := by
  unfold Machine.outcome
  generalize m.returned = value at returned
  generalize n.returned = value' at returned
  cases returned with
  | some given => exact given
  | none => exact same

private theorem sameFrames_head {ref : FunctionRef → FunctionRef → Prop} {frames others : List Frame}
    {session lasting : Frame}
    (inner : List.Forall₂ (SameFrame ref) frames others) (same : SameFrame ref session lasting) :
    SameFrame ref (frames.headD session) (others.headD lasting) := by
  cases inner with
  | nil => exact same
  | cons first _ => exact first

/-- The end of a chunk: the innermost frame becomes that of the session. -/
theorem sameEnd_of_chunk {table other : Array Definition} {result reply : Except RuntimeError Value}
    {session lasting : Frame} (same : SameEvaluation table other (result, after) (reply, final))
    (kept : SameFrame (SameDefinition table other) session lasting) :
    SameEnd ((result.map after.outcome).mapError .runtime,
        { after with session := after.frames.headD session, returned := none })
      ((reply.map final.outcome).mapError .runtime,
        { final with session := final.frames.headD lasting, returned := none }) := by
  cases same with
  | value same beside =>
    obtain ⟨rfl, rfl⟩ := beside.definitions
    refine ⟨?_, beside.globals, sameFrames_head beside.frames kept, beside.sink, beside.depthLimit⟩
    exact congrArg Except.ok (seen_eq (outcome_same beside.returned same))
  | error same beside =>
    obtain ⟨rfl, rfl⟩ := beside.definitions
    refine ⟨?_, beside.globals, sameFrames_head beside.frames kept, beside.sink, beside.depthLimit⟩
    exact congrArg (fun shown => Except.error (Sum.inr shown)) same

/-- The end of a program. -/
theorem sameEnd_of_program {table other : Array Definition} {result reply : Except RuntimeError Value}
    (same : SameEvaluation table other (result, after) (reply, final)) :
    SameEnd ((result.map fun _ => after.outcome .empty).mapError .runtime, after)
      ((reply.map fun _ => final.outcome .empty).mapError .runtime, final) := by
  cases same with
  | value _ beside =>
    refine ⟨?_, Beside.alike beside⟩
    obtain ⟨rfl, rfl⟩ := beside.definitions
    exact congrArg Except.ok (seen_eq (outcome_same beside.returned (.plain (by simp))))
  | error same beside =>
    exact ⟨congrArg (fun shown => Except.error (Sum.inr shown)) same, Beside.alike beside⟩

/-- What a step does on the one machine it does on the other. -/
theorem Alike.follows (alike : Alike m n) {step : Step} {first : Except Failure Value × Machine}
    (ran : step.run fuel m = some first) : ∃ second, step.run fuel n = some second ∧ SameEnd first second := by
  obtain ⟨outcome, after⟩ := first
  cases step with
  | reset =>
    cases ran
    exact ⟨_, rfl, rfl, sameFrame_empty, sameFrame_empty, alike.sink, alike.depthLimit⟩
  | chunk file text =>
    rcases runChunk_cases ran with ⟨e, unread, rfl, rfl⟩ | ⟨program, result, reached, read, evaluated, rfl, rfl⟩
    · exact ⟨_, runChunk_unread unread, rfl, alike.setSource file text⟩
    · obtain ⟨statements, functions⟩ := formed_of_text read
      have start := (alike.setSource file text).chunkStart rfl functions
      obtain ⟨⟨reply, final⟩, answered, same⟩ := start.statements statements evaluated
      obtain ⟨kept, _⟩ := List.forall₂_cons.mp start.frames
      exact ⟨_, runChunk_read read answered, sameEnd_of_chunk same kept⟩
  | program file text =>
    rcases runSource_cases ran with ⟨e, unread, rfl, rfl⟩ | ⟨program, result, read, evaluated, rfl⟩
    · exact ⟨_, runSource_unread unread, rfl, alike⟩
    · obtain ⟨statements, functions⟩ := formed_of_text (ofFragment_of_ofSource read)
      have start := (alike.setSource file text).launch rfl functions
      obtain ⟨⟨reply, final⟩, answered, same⟩ := start.node (.block statements) evaluated
      exact ⟨_, runSource_read read answered, sameEnd_of_program same⟩

/-- A step ends on both machines or on neither. -/
theorem Alike.step (alike : Alike m n) (fuel : Nat) (step : Step) :
    Option.Rel SameEnd (step.run fuel m) (step.run fuel n) := by
  cases ran : step.run fuel m with
  | some first =>
    obtain ⟨second, answered, same⟩ := alike.follows ran
    rw [answered]
    exact .some same
  | none =>
    cases answered : step.run fuel n with
    | none => exact .none
    | some second =>
      obtain ⟨first, other, _⟩ := alike.symm.follows answered
      cases ran.symm.trans other

end Likeness

section Seeing
variable {m n : Machine} {frame other : Frame}

/-- The entries of a frame in the order of their names, as they show outside the machine. -/
def shown (m : Machine) (frame : Frame) : List (String × Seen) :=
  frame.sorted.map fun entry => (entry.1, seen m entry.2)

private theorem get_of_mem (distinct : frame.names.Nodup) {name : String} {value : Value}
    (member : (name, value) ∈ frame.entries) : frame.get? name = some value := by
  obtain ⟨entries⟩ := frame
  unfold Frame.names at distinct
  unfold Frame.get?
  dsimp only at distinct member ⊢
  induction entries with
  | nil => cases member
  | cons entry rest ih =>
    obtain ⟨key, old⟩ := entry
    obtain ⟨missing, others⟩ := List.nodup_cons.mp distinct
    rcases List.mem_cons.mp member with same | later
    · cases same
      simp
    · have differs : name ≠ key := by
        rintro rfl
        exact missing (List.mem_map.mpr ⟨(name, value), later, rfl⟩)
      rw [List.lookup_cons, beq_false_of_ne differs]
      exact ih others later

private theorem mem_of_get {name : String} {value : Value} (found : frame.get? name = some value) :
    (name, value) ∈ frame.entries := by
  obtain ⟨before, after, entries, _⟩ := List.lookup_eq_some_iff.mp found
  rw [entries]
  simp

private theorem mem_shown (distinct : frame.names.Nodup) {name : String} {s : Seen} :
    (name, s) ∈ shown m frame ↔ view m frame name = some s := by
  rw [shown, List.mem_map, view, Option.map_eq_some_iff]
  constructor
  · rintro ⟨⟨key, value⟩, member, same⟩
    cases same
    exact ⟨value, get_of_mem distinct (List.mem_mergeSort.mp member), rfl⟩
  · rintro ⟨value, found, rfl⟩
    exact ⟨(name, value), List.mem_mergeSort.mpr (mem_of_get found), rfl⟩

private theorem shown_nodup (distinct : frame.names.Nodup) : (shown m frame).Nodup := by
  have names : (shown m frame).map Prod.fst = frame.sorted.map Prod.fst := by
    rw [shown, List.map_map]
    rfl
  have sorted : ((shown m frame).map Prod.fst).Nodup := by
    rw [names]
    exact ((List.mergeSort_perm _ _).map Prod.fst).nodup_iff.mpr distinct
  exact List.Pairwise.of_map Prod.fst (fun _ _ differ same => differ (congrArg Prod.fst same)) sorted

private theorem shown_sorted (m : Machine) (frame : Frame) : (shown m frame).Pairwise fun a b => a.1 ≤ b.1 := by
  have ordered : frame.sorted.Pairwise fun a b => decide (a.1 ≤ b.1) = true := by
    apply List.pairwise_mergeSort
    · intro a b c first second
      simpa using String.le_trans (of_decide_eq_true first) (of_decide_eq_true second)
    · intro a b
      simpa using String.le_total a.1 b.1
  rw [shown, List.pairwise_map]
  exact ordered.imp of_decide_eq_true

/-- Frames that say the same look the same, whatever the order in which their names were set. -/
theorem shown_eq (distinct : frame.names.Nodup) (unlike : other.names.Nodup) (same : view m frame = view n other) :
    shown m frame = shown n other := by
  have members : ∀ entry, entry ∈ shown m frame ↔ entry ∈ shown n other := by
    rintro ⟨name, s⟩
    rw [mem_shown distinct, mem_shown unlike, same]
  have permuted : (shown m frame).Perm (shown n other) :=
    (List.perm_ext_iff_of_nodup (shown_nodup distinct) (shown_nodup unlike)).mpr members
  refine List.Perm.eq_of_pairwise ?_ (shown_sorted m frame) (shown_sorted n other) permuted
  rintro ⟨name, s⟩ ⟨key, t⟩ here there before after
  have names : name = key := String.le_antisymm before after
  subst names
  have first := (mem_shown distinct).mp here
  have second := (mem_shown unlike).mp there
  rw [same, second] at first
  cases first
  rfl

/-- A name and its function, if it has one. -/
def declared? : String × Seen → Option (String × Definition)
  | (name, .function _ d) => some (name, d)
  | _ => none

private theorem functions_eq (m : Machine) : m.functions = (shown m m.globals).filterMap declared? := by
  rw [shown, List.filterMap_map, Machine.functions]
  congr 1
  funext entry
  obtain ⟨name, value⟩ := entry
  cases value <;> rfl

private theorem view_eq (same : SameFrame (SameDefinition m.definitions n.definitions) frame other) :
    view m frame = view n other := by
  funext name
  have found := same name
  unfold view
  generalize frame.get? name = value at found
  generalize other.get? name = value' at found
  cases found with
  | none => rfl
  | some same => exact congrArg some (seen_eq same)

/-- Conversely, functions of the tables that look the same stand for each other. -/
theorem sameValue_of_seen {v w : Value}
    (here : ∀ f, v = .function f → ∃ d, m.definitions[f.index]? = some d ∧ Formed d.body)
    (there : ∀ g, w = .function g → ∃ d, n.definitions[g.index]? = some d ∧ Formed d.body)
    (same : seen m v = seen n w) : SameValue (SameDefinition m.definitions n.definitions) v w := by
  cases v with
  | function f =>
    cases w with
    | function g =>
      obtain ⟨d, listed, formed⟩ := here f rfl
      obtain ⟨e, found, _⟩ := there g rfl
      simp only [seen, Machine.definition, listed, found, Option.getD_some, Seen.function.injEq] at same
      obtain ⟨names, rfl⟩ := same
      exact .function ⟨names, d, listed, found, formed⟩
    | _ => cases same
  | _ =>
    cases w <;> cases same
    exact .plain (by simp)

private theorem sameFrame_of_view (kept : KeptFrame m.definitions frame) (held : KeptFrame n.definitions other)
    (same : view m frame = view n other) : SameFrame (SameDefinition m.definitions n.definitions) frame other := by
  intro name
  have alike := congrFun same name
  unfold view at alike
  cases here : frame.get? name with
  | none =>
    rw [here] at alike
    rw [Option.map_eq_none_iff.mp alike.symm]
    exact .none
  | some v =>
    rw [here] at alike
    obtain ⟨w, there, looks⟩ := Option.map_eq_some_iff.mp alike.symm
    rw [there]
    refine .some (sameValue_of_seen (fun f given => ?_) (fun g given => ?_) looks.symm)
    · exact kept.listed name f (given ▸ here)
    · exact held.listed name g (given ▸ there)

end Seeing

section Sessions
variable {m n after : Machine} {limit : Int} {fuel : Nat}

private theorem alike_of_sameState (kept : Kept m) (held : Kept n) (same : SameState m n) : Alike m n :=
  ⟨sameFrame_of_view kept.globals held.globals same.globals, sameFrame_of_view kept.session held.session same.session,
    same.sink, same.depthLimit⟩

theorem Kept.distinct (kept : Kept m) : Distinct m := ⟨kept.globals.distinct, kept.session.distinct⟩

/-- A frame is kept if it corresponds to itself. -/
theorem keptFrame_of_same {table : Array Definition} {frame : Frame} (distinct : frame.names.Nodup)
    (same : SameFrame (SameDefinition table table) frame frame) : KeptFrame table frame := by
  refine ⟨distinct, fun name f found => ?_⟩
  have alike := same name
  rw [found] at alike
  cases alike with
  | some alike =>
    cases alike with
    | plain isOther => exact absurd rfl (isOther f)
    | function stands =>
      obtain ⟨d, listed, _, formed⟩ := stands.listed
      exact ⟨d, listed, formed⟩

private theorem kept_iff : Kept m ↔ Distinct m ∧ Alike m m := by
  constructor
  · intro kept
    exact ⟨kept.distinct, alike_of_sameState kept kept ⟨rfl, rfl, rfl, rfl⟩⟩
  · rintro ⟨distinct, alike⟩
    exact ⟨keptFrame_of_same distinct.globals alike.globals, keptFrame_of_same distinct.session alike.session⟩

theorem Kept.step (kept : Kept m) {step : Step} {outcome : Except Failure Value}
    (ran : step.run fuel m = some (outcome, after)) : Kept after := by
  obtain ⟨distinct, alike⟩ := kept_iff.mp kept
  have ends := alike.step fuel step
  rw [ran] at ends
  cases ends with
  | some same => exact kept_iff.mpr ⟨distinct.step ran, same.alike⟩

private theorem keptFrame_empty (table : Array Definition) : KeptFrame table {} := by
  refine ⟨.nil, fun name f found => ?_⟩
  cases found

theorem Reached.kept (reached : Reached limit m) : Kept m := by
  induction reached with
  | new sink file => exact ⟨keptFrame_empty _, keptFrame_empty _⟩
  | step _ ran ih => exact ih.step ran

private theorem step_depthLimit {step : Step} {outcome : Except Failure Value}
    (ran : step.run fuel m = some (outcome, after)) : after.depthLimit = m.depthLimit := by
  cases step with
  | reset =>
    cases ran
    rfl
  | chunk file text =>
    rcases runChunk_cases ran with ⟨_, _, _, rfl⟩ | ⟨program, _, reached, _, evaluated, _, rfl⟩
    · rfl
    · have setting := evalStatements_within sameSetting_respected fuel _ _ _ _ _ evaluated
      rw [setting.depthLimit, chunkStart, defineAll_eq]
      rfl
  | program file text =>
    rcases runSource_cases ran with ⟨_, _, _, rfl⟩ | ⟨program, _, _, evaluated, _⟩
    · rfl
    · have setting := eval_within sameSetting_respected fuel _ _ _ _ evaluated
      rw [setting.depthLimit, launch, defineAll_eq]
      rfl

theorem Reached.depthLimit (reached : Reached limit m) (sink : Sink) (file : String) :
    m.depthLimit = (Machine.new limit sink file).depthLimit := by
  induction reached with
  | new _ _ => rfl
  | step _ ran ih => rw [step_depthLimit ran, ih]

private theorem sight_eq (distinct : Distinct m) (other : Distinct n) {outcome reply : Except Failure Value}
    (same : SameEnd (outcome, m) (reply, n)) : sight outcome m = sight reply n := by
  obtain ⟨result, alike⟩ := same
  have session : shown m m.session = shown n n.session :=
    shown_eq distinct.session other.session (view_eq alike.session)
  have globals : shown m m.globals = shown n n.globals :=
    shown_eq distinct.globals other.globals (view_eq alike.globals)
  unfold sight
  rw [functions_eq, functions_eq, globals]
  congr 1
  exact alike.sink

private theorem observe_eq (distinct : Distinct m) (other : Distinct n) (alike : Alike m n) (fuel : Nat)
    (steps : List Step) :
    observe fuel steps m = observe fuel steps n := by
  induction steps generalizing m n with
  | nil => rfl
  | cons step rest ih =>
    have ends := alike.step fuel step
    unfold observe
    cases ran : step.run fuel m with
    | none =>
      rw [ran] at ends
      cases answered : step.run fuel n with
      | none => rfl
      | some second =>
        rw [answered] at ends
        cases ends
    | some first =>
      rw [ran] at ends
      cases answered : step.run fuel n with
      | none =>
        rw [answered] at ends
        cases ends
      | some second =>
        rw [answered] at ends
        cases ends with
        | some same =>
          have before := distinct.step ran
          have beyond := other.step answered
          exact congrArg₂ _ (congrArg some (sight_eq before beyond same)) (ih before beyond same.alike)

theorem Kept.observe (kept : Kept m) (held : Kept n) (same : SameState m n) (fuel : Nat) (steps : List Step) :
    observe fuel steps m = observe fuel steps n :=
  observe_eq kept.distinct held.distinct (alike_of_sameState kept held same) fuel steps

theorem Kept.setSource (kept : Kept m) (file text : String) : Kept (m.setSource file text) :=
  ⟨kept.globals, kept.session⟩

private theorem kept_reset (m : Machine) : Kept m.reset := ⟨keptFrame_empty _, keptFrame_empty _⟩

end Sessions

/-- The state of a session is what its functions and variables are. Two machines whose global and session frames say
the same, with one depth limit and one sink, cannot be told apart by any steps, whatever else they hold. All machines
that come about in sessions are such as this is about. In particular a chunk that cannot be read leaves all functions
and variables and does not show later, and a machine that has been reset behaves like a new one. -/
theorem session_state_determines_behaviour :
    (∀ m n, Kept m → Kept n → SameState m n → ∀ fuel steps, observe fuel steps m = observe fuel steps n) ∧
    ∀ limit m, Reached limit m → Kept m ∧
      (∀ file text e, Program.ofFragment text = .error e → ∃ after,
        (∀ fuel, m.runChunk fuel file text = some (.error (.source e), after)) ∧
        after.definitions = m.definitions ∧ after.globals = m.globals ∧ after.session = m.session ∧
        ∀ fuel steps, observe fuel steps after = observe fuel steps m) ∧
      ∀ file fuel steps, observe fuel steps m.reset = observe fuel steps (Machine.new limit m.sink file) := by
  refine ⟨fun m n kept held same => kept.observe held same, fun limit m reached => ?_⟩
  have kept := reached.kept
  refine ⟨kept, fun file text e unread => ?_, fun file fuel steps => ?_⟩
  · refine ⟨m.setSource file text, fun fuel => runChunk_unread unread, rfl, rfl, rfl, fun fuel steps => ?_⟩
    exact (kept.setSource file text).observe kept ⟨rfl, rfl, rfl, rfl⟩ fuel steps
  · have fresh : Kept (Machine.new limit m.sink file) := (Reached.new m.sink file).kept
    exact (kept_reset m).observe fresh ⟨rfl, rfl, rfl, reached.depthLimit m.sink file⟩ fuel steps

/-- A program that fails inside a function, and one that returns at once. -/
def samplePast : List Step :=
  [.program "a" "func g() \x7b return h \x7d g()", .program "b" "return true"]

/-- After these two programs a machine still has a function in its table, a recorded return and the text of the
second one. Yet any further steps show the same on it as on a new machine, and so they do after a reset, and after a
chunk that cannot be read. -/
theorem samplePast_leaves_no_trace :
    ∃ e middle n, Step.run 30 (Machine.new 3 {} "") samplePast[0] = some (.error (.runtime e), middle) ∧
      e.fault = .unknownVariable "h" ∧ e.stack = ["g"] ∧
      Step.run 30 middle samplePast[1] = some (.ok (.bool true), n) ∧
      n.definitions.size = 1 ∧ n.returned = some (.bool true) ∧ n.source = ⟨"b", ["return true"]⟩ ∧
      (∀ fuel steps, observe fuel steps n = observe fuel steps (Machine.new 3 {} "")) ∧
      (∀ fuel steps, observe fuel steps n.reset = observe fuel steps (Machine.new 3 n.sink "c")) ∧
      ∃ unclosed after, n.runChunk 30 "c" "x = (" = some (.error (.source unclosed), after) ∧
        ∀ fuel steps, observe fuel steps after = observe fuel steps n := by
  have ran : ((Step.run 30 (Machine.new 3 {} "") samplePast[0]).bind fun first =>
      (Step.run 30 first.2 samplePast[1]).map fun second => decide (
        runtimeError? first.1 = some (.unknownVariable "h", ["g"]) ∧ second.1 = .ok (.bool true) ∧
        second.2.definitions.size = 1 ∧ second.2.returned = some (.bool true) ∧
        second.2.source = ⟨"b", ["return true"]⟩ ∧ second.2.globals = {} ∧ second.2.session = {} ∧
        second.2.sink = {} ∧ second.2.depthLimit = 3)) = some true := by
    decide +kernel
  obtain ⟨⟨_, middle⟩, first, ran⟩ := Option.bind_eq_some_iff.mp ran
  obtain ⟨⟨_, n⟩, second, shown⟩ := Option.map_eq_some_iff.mp ran
  obtain ⟨failed, rfl, size, returned, source, globals, session, sink, limit⟩ := of_decide_eq_true shown
  obtain ⟨e, rfl, fault, stack⟩ := runtimeError_eq failed
  obtain ⟨determined, reached⟩ := session_state_determines_behaviour
  have start : Reached 3 (Machine.new 3 {} "") := .new {} ""
  obtain ⟨held, _, _⟩ := reached 3 _ start
  obtain ⟨kept, unreadable, reset⟩ := reached 3 n ((start.step first).step second)
  have same : SameState n (Machine.new 3 {} "") := by
    refine ⟨?_, ?_, sink, limit⟩
    · rw [globals]
      rfl
    · rw [session]
      rfl
  have unread : (Program.ofFragment "x = (").toOption.isNone = true := by
    decide +kernel
  cases parsed : Program.ofFragment "x = (" with
  | ok program => simp [parsed, Except.toOption] at unread
  | error unclosed =>
    obtain ⟨after, failed, _, _, _, later⟩ := unreadable "c" "x = (" unclosed parsed
    exact ⟨e, middle, n, first, fault, stack, second, size, returned, source, determined n _ kept held same, reset "c",
      unclosed, after, failed 30, later⟩

end Scriptlet.Proofs.SessionState
