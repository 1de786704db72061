import Scriptlet.Proofs.ConsoleState

/-! Lines go through the console in order. Every line is run once, together with the lines right before and after it
that make up its chunk, or is still kept; only lines of white space may be dropped. The chunks are numbered from one
on. -/

namespace Scriptlet.Proofs.FedLines
open Console ConsoleState

/-- What is kept after some lines, and what they lead to. -/
def feedAll (input : Input) : List String → Input × List Event
  | [] => (input, [])
  | line :: lines =>
    let fed := input.feed line
    let later := feedAll fed.1 lines
    (later.1, fed.2 ++ later.2)

/-- The console after some lines. -/
def feedConsole (fuel : Nat) (read : Command.ReadFile) (console : Console) : List String → Option Console
  | [] => some console
  | line :: lines => (console.feed fuel read line).bind fun fed => feedConsole fuel read fed.1 lines

/-- The machine after the texts were run as chunks, with the numbers that follow `n`. -/
def runNumbered (fuel n : Nat) (m : Machine) : List String → Option Machine
  | [] => some m
  | text :: texts => (m.runChunk fuel ("<repl:" ++ (n + 1).repr ++ ">") text).bind fun ran =>
      runNumbered fuel (n + 1) { ran.2 with sink := ran.2.sink.drained } texts

private theorem runNumbered_append (fuel n : Nat) (m : Machine) (texts more : List String) :
    runNumbered fuel n m (texts ++ more) =
      (runNumbered fuel n m texts).bind fun after => runNumbered fuel (n + texts.length) after more := by
  induction texts generalizing n m with
  | nil => rfl
  | cons text texts ih =>
    simp only [List.cons_append, runNumbered, ih, Option.bind_assoc, List.length_cons, Nat.add_comm, Nat.add_left_comm]

section Numbers
variable (fuel : Nat) (read : Command.ReadFile) (console : Console)

private theorem handleAll_cons (event : Event) (events : List Event) :
    (console.handleAll fuel read (event :: events)).map Prod.fst =
      (console.handle fuel read event).bind fun handled => (handled.1.handleAll fuel read events).map Prod.fst := by
  rw [Console.handleAll]
  cases console.handle fuel read event with
  | none => rfl
  | some handled =>
    change (handled.1.handleAll fuel read events >>= _).map Prod.fst =
      (handled.1.handleAll fuel read events).map Prod.fst
    cases handled.1.handleAll fuel read events <;> rfl

private theorem handleAll_runs (texts : List String) : (console.handleAll fuel read (texts.map .run)).map Prod.fst =
    (runNumbered fuel console.chunks console.machine texts).map fun m =>
      { console with machine := m, chunks := console.chunks + texts.length } := by
  induction texts generalizing console with
  | nil => rfl
  | cons text texts ih =>
    rw [List.map_cons, handleAll_cons, Console.handle, Console.runChunk, runNumbered]
    cases console.machine.runChunk fuel ("<repl:" ++ (console.chunks + 1).repr ++ ">") text with
    | none => rfl
    | some ran =>
      refine (ih _).trans ?_
      simp only [List.length_cons, Nat.add_assoc, Nat.add_comm 1]
      rfl

/-- Where lines lead to nothing but runs, the console runs their texts one after the other. -/
theorem feedConsole_runs {lines texts : List String} (runs : (feedAll console.input lines).2 = texts.map .run) :
    feedConsole fuel read console lines = (runNumbered fuel console.chunks console.machine texts).map fun m =>
      { console with
        input := (feedAll console.input lines).1, machine := m, chunks := console.chunks + texts.length } := by
  induction lines generalizing console texts with
  | nil =>
    obtain rfl := List.map_eq_nil_iff.mp runs.symm
    rfl
  | cons line lines ih =>
    obtain ⟨first, others, rfl, now, later⟩ := List.append_eq_map_iff.mp runs
    have fed := handleAll_runs fuel read { console with input := (console.input.feed line).1 } first
    have split : feedConsole fuel read console (line :: lines) =
        (({ console with input := (console.input.feed line).1 }.handleAll fuel read (console.input.feed line).2).map
          Prod.fst).bind fun next => feedConsole fuel read next lines := by
      rw [Option.bind_map]
      rfl
    rw [split, ← now, fed, runNumbered_append]
    dsimp only
    cases runNumbered fuel console.chunks console.machine first with
    | none => rfl
    | some m =>
      refine (ih _ later.symm).trans ?_
      simp only [List.length_append, Nat.add_assoc]
      rfl

end Numbers

/-- The second list is the first one without some of its lines of white space. -/
inductive Pruned : List String → List String → Prop where
  | nil : Pruned [] []
  | keep {fed kept : List String} (line : String) (pruned : Pruned fed kept) : Pruned (line :: fed) (line :: kept)
  | drop {fed kept : List String} {line : String} (blank : isBlankText line = true) (pruned : Pruned fed kept) :
      Pruned (line :: fed) kept

/-- The lines that were fed, those that were run, chunk by chunk, and those that are kept: a line is kept at first, and
what is kept is then run or, if it is blank, dropped. -/
inductive Divided : List String → List (List String) → List String → Prop where
  | start : Divided [] [] []
  | keep {fed kept : List String} {chunks : List (List String)} (line : String) (divided : Divided fed chunks kept) :
      Divided (fed ++ [line]) chunks (kept ++ [line])
  | run {fed kept : List String} {chunks : List (List String)} (divided : Divided fed chunks kept) :
      Divided fed (chunks ++ [kept]) []
  | drop {fed kept : List String} {chunks : List (List String)} (blank : ∀ line ∈ kept, isBlankText line = true)
      (divided : Divided fed chunks kept) : Divided fed chunks []

section Division
variable {fed kept : List String} {chunks : List (List String)} {line : String} {input : Input}

theorem Pruned.concat (pruned : Pruned fed kept) (line : String) : Pruned (fed ++ [line]) (kept ++ [line]) := by
  induction pruned with
  | nil => exact .keep line .nil
  | keep first _ ih => exact .keep first ih
  | drop blank _ ih => exact .drop blank ih

theorem Pruned.shorten {others : List String} (pruned : Pruned fed (kept ++ others))
    (blank : ∀ line ∈ others, isBlankText line = true) : Pruned fed kept := by
  generalize whole : kept ++ others = lines at pruned
  induction pruned generalizing kept others with
  | nil =>
    obtain ⟨rfl, _⟩ := List.append_eq_nil_iff.mp whole
    exact .nil
  | keep first pruned ih =>
    rcases List.append_eq_cons_iff.mp whole with ⟨rfl, rfl⟩ | ⟨tail, rfl, rfl⟩
    · have given := List.forall_mem_cons.mp blank
      exact .drop given.1 (ih given.2 (List.nil_append _))
    · exact .keep first (ih blank rfl)
  | drop given _ ih => exact .drop given (ih blank whole)

theorem Divided.pruned (divided : Divided fed chunks kept) : Pruned fed (chunks.flatten ++ kept) := by
  induction divided with
  | start => exact .nil
  | keep line _ ih => simpa using ih.concat line
  | run _ ih => simpa using ih
  | drop blank _ ih => simpa using ih.shorten blank

theorem Divided.suffix (divided : Divided fed chunks kept) : kept <:+ fed := by
  induction divided with
  | start => exact List.suffix_refl []
  | keep line _ ih => exact List.suffix_append_self_iff.mpr ih
  | run _ _ => exact List.nil_suffix
  | drop _ _ _ => exact List.nil_suffix

theorem Divided.consecutive (divided : Divided fed chunks kept) : ∀ chunk ∈ chunks, chunk <:+: fed := by
  induction divided with
  | start => simp
  | keep line _ ih => exact fun chunk member => (ih chunk member).trans (List.prefix_append _ _).isInfix
  | run divided ih =>
    intro chunk member
    rcases List.mem_append.mp member with before | last
    · exact ih chunk before
    · rw [List.mem_singleton.mp last]
      exact divided.suffix.isInfix
  | drop _ _ ih => exact ih

/-- The event of running some lines. -/
def runLines (lines : List String) : Event := .run (textOf lines)

private theorem blank_of_trimmed (empty : (trimmed line).isEmpty = true) : isBlankText line = true := by
  rw [String.isEmpty_iff, trimmed, String.ofList_eq_empty_iff, Text.trim, List.reverse_eq_nil_iff,
    List.dropWhile_eq_nil_iff] at empty
  rw [isBlankText, List.all_eq_true]
  intro c member
  rw [← List.takeWhile_append_dropWhile (p := Text.isBlank) (l := line.toList)] at member
  rcases List.mem_append.mp member with front | back
  · exact List.mem_takeWhile_imp front
  · exact empty c (List.mem_reverse.mpr back)

theorem blank_lines {lines : List String} (blank : isBlankText (textOf lines) = true) :
    ∀ line ∈ lines, isBlankText line = true := by
  induction lines with
  | nil => simp
  | cons line lines ih =>
    rw [textOf_cons, isBlankText, String.toList_append, String.toList_append, List.all_append, List.all_append,
      Bool.and_eq_true, Bool.and_eq_true] at blank
    exact List.forall_mem_cons.mpr ⟨blank.1.1, ih blank.2⟩

theorem Divided.flush (divided : Divided fed chunks input.lines) :
    ∃ more, input.flush.2 = more.map runLines ∧ Divided fed (chunks ++ more) [] := by
  rw [Input.flush]
  dsimp only
  split
  next blank =>
    exact ⟨[], rfl, by simpa using Divided.drop (blank_lines blank) divided⟩
  · exact ⟨[input.lines], rfl, .run divided⟩

theorem Divided.taken {result : Input × List Event} (divided : Divided fed chunks input.lines)
    (taken : Taken input line result) :
    ∃ more, result.2 = more.map runLines ∧ Divided (fed ++ [line]) (chunks ++ more) result.1.lines := by
  have kept := divided.keep line
  cases taken with
  | opened => exact ⟨[], rfl, by simpa using kept⟩
  | held => exact ⟨[], rfl, by simpa using kept⟩
  | complete => exact kept.flush

/-- A line that is no command is divided off with the others, and does not start paste mode. -/
theorem Divided.feed (divided : Divided fed chunks input.lines) (typing : Typing input)
    (plain : (trimmed line).startsWith ":" = false) :
    ∃ more, (input.feed line).2 = more.map runLines ∧
      Divided (fed ++ [line]) (chunks ++ more) (input.feed line).1.lines ∧ Typing (input.feed line).1 := by
  have taken (input : Input) : Taken input line ((released input).feedLine line) :=
    feedLine_taken fun commands => by simpa [plain] using commands.colon
  by_cases joins : input.held = true → startsWithElse (trimmed line) = true
  · rw [feed_joining typing.mode joins]
    obtain ⟨more, events, after⟩ := divided.taken (taken input)
    exact ⟨more, events, after, (taken input).typing typing⟩
  · obtain ⟨held, apart⟩ := Classical.not_imp.mp joins
    obtain ⟨before, flushed, parted⟩ := divided.flush
    rw [feed_parting typing held (Bool.eq_false_iff.mpr apart), flushed]
    split
    next empty =>
      refine ⟨before, rfl, .drop ?_ (parted.keep line), ⟨rfl, rfl⟩⟩
      simpa using blank_of_trimmed empty
    · have fresh : Taken {} line (Input.feedLine {} line) := taken {}
      obtain ⟨more, events, after⟩ := Divided.taken (show Divided fed _ ({} : Input).lines from parted) fresh
      refine ⟨before ++ more, ?_, ?_, ?_⟩
      · simp [events]
      · simpa using after
      · exact fresh.typing ⟨rfl, rfl⟩

theorem Divided.feedAll (divided : Divided fed chunks input.lines) (typing : Typing input) {lines : List String}
    (plain : ∀ line ∈ lines, (trimmed line).startsWith ":" = false) :
    ∃ more, (feedAll input lines).2 = more.map runLines ∧
      Divided (fed ++ lines) (chunks ++ more) (feedAll input lines).1.lines := by
  induction lines generalizing fed chunks input with
  | nil =>
    refine ⟨[], rfl, ?_⟩
    rw [List.append_nil, List.append_nil]
    exact divided
  | cons line lines ih =>
    obtain ⟨first, others⟩ := List.forall_mem_cons.mp plain
    obtain ⟨now, events, next, still⟩ := divided.feed typing first
    obtain ⟨later, more, last⟩ := ih next still others
    refine ⟨now ++ later, ?_, ?_⟩
    · rw [List.map_append, ← events, ← more]
      rfl
    · rw [← List.append_assoc, List.append_cons]
      exact last

end Division

private theorem textOf_append (lines others : List String) :
    textOf (lines ++ others) = textOf lines ++ textOf others := by
  induction lines with
  | nil => simp [textOf_nil]
  | cons line lines ih => simp only [List.cons_append, textOf_cons, ih, String.append_assoc]

private theorem textOf_flatten (chunks : List (List String)) :
    textOf chunks.flatten = String.join (chunks.map textOf) := by
  induction chunks with
  | nil => rfl
  | cons chunk chunks ih => simp [textOf_append, ih]

/-- No line is lost and none is run twice. Of lines among which there are no commands, some blank ones apart, the texts
that are run and the text that is kept are made up in order; each text that is run is that of consecutive lines, and the
texts are run as the chunks with the numbers one, two, three and so on. -/
theorem fed_lines_run_in_order (lines : List String)
    (plain : ∀ line ∈ lines, (trimmed line).startsWith ":" = false) :
    ∃ (chunks : List (List String)) (kept : List String), Pruned lines kept ∧
      (feedAll {} lines).2 = chunks.map runLines ∧
      String.join (chunks.map textOf) ++ lineBuffer (feedAll {} lines).1 = textOf kept ∧
      (∀ chunk ∈ chunks, chunk <:+: lines) ∧
      ∀ options color fuel read, feedConsole fuel read (Console.new options color) lines =
        (runNumbered fuel 0 (Console.new options color).machine (chunks.map textOf)).map fun m =>
          { Console.new options color with input := (feedAll {} lines).1, machine := m, chunks := chunks.length } := by
  obtain ⟨chunks, events, divided⟩ := Divided.feedAll (show Divided [] [] ({} : Input).lines from .start) ⟨rfl, rfl⟩ plain
  refine ⟨chunks, _, divided.pruned, events, ?_, divided.consecutive, ?_⟩
  · rw [List.nil_append, textOf_append, textOf_flatten]
    rfl
  · intro options color fuel read
    have runs : (feedAll (Console.new options color).input lines).2 = (chunks.map textOf).map .run :=
      events.trans (List.map_map ..).symm
    rw [feedConsole_runs fuel read _ runs, List.length_map]
    simp only [Console.new, Nat.zero_add]

/-- A blank line inside a block, one behind a held `if`, and a block that is still open. -/
def sampleLines : List String :=
  ["x = 1", "if x > 1 \x7b", "", "x \x7d", "else \x7b 2 \x7d", " ", "while false \x7b"]

theorem sampleLines_run_in_order :
    (∀ line ∈ sampleLines, (trimmed line).startsWith ":" = false) ∧
    ∃ (chunks : List (List String)) (kept : List String), Pruned sampleLines kept ∧
      chunks.map textOf = ["x = 1\n", "if x > 1 \x7b\n\nx \x7d\nelse \x7b 2 \x7d\n"] ∧
      String.join (chunks.map textOf) ++ "while false \x7b\n" = textOf kept ∧
      (∀ chunk ∈ chunks, chunk <:+: sampleLines) ∧
      ∃ console, feedConsole 20 noFiles (Console.new {} false) sampleLines = some console ∧ console.chunks = 2 := by
  have plain : ∀ line ∈ sampleLines, (trimmed line).startsWith ":" = false := by decide +kernel
  have fed : feedAll {} sampleLines = (⟨["while false \x7b"], 1, false, false, []⟩,
      [.run "x = 1\n", .run "if x > 1 \x7b\n\nx \x7d\nelse \x7b 2 \x7d\n"]) := by decide +kernel
  obtain ⟨chunks, kept, pruned, events, whole, consecutive, runs⟩ := fed_lines_run_in_order sampleLines plain
  have texts : chunks.map textOf = ["x = 1\n", "if x > 1 \x7b\n\nx \x7d\nelse \x7b 2 \x7d\n"] := by
    have same : (chunks.map textOf).map Event.run =
        ["x = 1\n", "if x > 1 \x7b\n\nx \x7d\nelse \x7b 2 \x7d\n"].map Event.run := by
      rw [List.map_map]
      exact events.symm.trans (congrArg Prod.snd fed)
    exact (List.map_inj_right fun _ _ => Event.run.inj).mp same
  refine ⟨plain, chunks, kept, pruned, texts, ?_, consecutive, ?_⟩
  · rw [← whole, fed]
    rfl
  · have ended : (runNumbered 20 0 (Console.new {} false).machine
        ["x = 1\n", "if x > 1 \x7b\n\nx \x7d\nelse \x7b 2 \x7d\n"]).isSome = true := by decide +kernel
    obtain ⟨m, ran⟩ := Option.isSome_iff_exists.mp ended
    rw [runs {} false 20 noFiles, texts, ran]
    exact ⟨_, rfl, by simpa using congrArg List.length texts⟩

end Scriptlet.Proofs.FedLines
