import Scriptlet.Command.Getopt

/-! Options may stand anywhere among the other words of a command line. They are read in rounds, each of which ends at a
word that is no option, but what is read in one round is not lost in the next one, so only the order of the options
among themselves and that of the other words among themselves matter. All that is asked of the reader of one round is
that it reads the options at the front and stops at the first word that is none. -/

namespace Scriptlet.Proofs.OptionPlacement
open Command

/-- The options that have no value. -/
inductive Switch where
  | verbose
  | ignoreExtension
  | timing
  | noColor
  | help
  deriving DecidableEq

def Switch.letter : Switch → Char
  | verbose => 'v'
  | ignoreExtension => 'e'
  | timing => 't'
  | noColor => 'n'
  | help => 'h'

/-- A positive number below `2 ^ 63` in decimal digits, with or without a plus sign. -/
structure Limit where
  plus : Bool
  digits : List Char
  decimal : ∀ c ∈ digits, Number.isDigit c = true
  positive : 0 < Number.ofDigits digits
  fits : Number.ofDigits digits < Nat.pow 2 63

namespace Limit

def chars (limit : Limit) : List Char := (if limit.plus then ['+'] else []) ++ limit.digits

def text (limit : Limit) : String := String.ofList limit.chars

def number (limit : Limit) : Int := Int.ofNat (Number.ofDigits limit.digits)

end Limit

/-- The option for the depth limit. Its value is the rest of its word, or the next word. -/
structure DepthOption where
  limit : Limit
  attached : Bool

/-- Letters that share a dash. Only the last one may have a value. -/
structure Cluster where
  switches : List Switch
  depth : Option DepthOption
  filled : switches ≠ [] ∨ depth.isSome = true

namespace Cluster

def letters (cluster : Cluster) : List Char := cluster.switches.map Switch.letter

def words (cluster : Cluster) : List String :=
  match cluster.depth with
  | none => [String.ofList ('-' :: cluster.letters)]
  | some ⟨limit, true⟩ => [String.ofList ('-' :: (cluster.letters ++ 'd' :: limit.chars))]
  | some ⟨limit, false⟩ => [String.ofList ('-' :: (cluster.letters ++ ['d'])), limit.text]

/-- What is to be read from the words of a cluster. -/
def flags (cluster : Cluster) : List Command.Flag :=
  cluster.letters.map (⟨·, ""⟩) ++ (cluster.depth.map fun depth => ⟨'d', depth.limit.text⟩).toList

end Cluster

/-- A word that is no option: it is empty, a single dash, or starts with no dash. -/
def Positional (word : String) : Prop := word = "" ∨ word = "-" ∨ word.toList.head? ≠ some '-'

instance (word : String) : Decidable (Positional word) := inferInstanceAs (Decidable (_ ∨ _ ∨ _))

/-- What a command line consists of. -/
inductive LineItem where
  | cluster (cluster : Cluster)
  | word (word : String) (plain : Positional word)

namespace LineItem

def words : LineItem → List String
  | cluster c => c.words
  | word w _ => [w]

def cluster? : LineItem → Option Cluster
  | cluster c => some c
  | word .. => none

def word? : LineItem → Option String
  | cluster _ => none
  | word w _ => some w

end LineItem

def wordsOf (items : List LineItem) : List String := items.flatMap LineItem.words

/-- The options on a command line. -/
def clustersOf (items : List LineItem) : List Cluster := items.filterMap LineItem.cluster?

/-- The other words on a command line. -/
def othersOf (items : List LineItem) : List String := items.filterMap LineItem.word?

/-- What options choose: a switch is on if its letter stands in one of them, and of several limits the last one
holds. -/
def chosen (clusters : List Cluster) : Options where
  verbose := clusters.any (·.switches.contains .verbose)
  ignoreExtension := clusters.any (·.switches.contains .ignoreExtension)
  timing := clusters.any (·.switches.contains .timing)
  noColor := clusters.any (·.switches.contains .noColor)
  help := clusters.any (·.switches.contains .help)
  maxDepth := ((clusters.filterMap Cluster.depth).getLast?.map (·.limit.number)).getD 0

/-- The reader reads the options at the front, up to the first word that is none or up to the end. The index is that of
the word behind them, where the name of the program has the first one. -/
def ReadsOptions (reader : OptionReader) : Prop :=
  ∀ (program : String) (clusters : List Cluster) (rest : List String), (∀ word ∈ rest.head?, Positional word) →
    reader.read (program :: (clusters.flatMap Cluster.words ++ rest)) =
      .ok (clusters.flatMap Cluster.flags, (clusters.flatMap Cluster.words).length + 1)

section Choices

/-- A later choice on top of an earlier one. -/
def merge (first second : Options) : Options where
  verbose := first.verbose || second.verbose
  ignoreExtension := first.ignoreExtension || second.ignoreExtension
  timing := first.timing || second.timing
  noColor := first.noColor || second.noColor
  help := first.help || second.help
  maxDepth := if second.maxDepth = 0 then first.maxDepth else second.maxDepth

private theorem merge_default (options : Options) : merge options {} = options := by
  simp [merge]

private theorem default_merge (options : Options) : merge {} options = options := by
  have last : (if options.maxDepth = 0 then 0 else options.maxDepth) = options.maxDepth := by
    split <;> omega
  simp only [merge, Bool.false_or, last]

private theorem merge_assoc (first second third : Options) :
    merge (merge first second) third = merge first (merge second third) := by
  simp only [merge, Bool.or_assoc, Options.mk.injEq, true_and]
  grind

theorem Limit.number_pos (limit : Limit) : 0 < limit.number := Int.ofNat_lt.mpr limit.positive

/-- A limit is never zero, so zero says that there is none. -/
private theorem last_limit (depth : DepthOption) (depths : List DepthOption) :
    (((depth :: depths).getLast?).map (·.limit.number)).getD 0 =
      if ((depths.getLast?).map (·.limit.number)).getD 0 = 0 then depth.limit.number
      else ((depths.getLast?).map (·.limit.number)).getD 0 := by
  rw [List.getLast?_cons]
  cases depths.getLast? with
  | none => rfl
  | some last =>
    have given : last.limit.number ≠ 0 := Int.ne_of_gt last.limit.number_pos
    simp [given]

private theorem chosen_cons (cluster : Cluster) (clusters : List Cluster) :
    chosen (cluster :: clusters) = merge (chosen [cluster]) (chosen clusters) := by
  simp only [chosen, merge, List.any_cons, List.any_nil, Bool.or_false, Options.mk.injEq, true_and, and_true]
  cases given : cluster.depth with
  | none =>
    rw [List.filterMap_cons_none given, List.filterMap_cons_none given]
    simp
  | some depth =>
    rw [List.filterMap_cons_some given, List.filterMap_cons_some given, last_limit]
    rfl

private theorem chosen_append (clusters more : List Cluster) :
    chosen (clusters ++ more) = merge (chosen clusters) (chosen more) := by
  induction clusters with
  | nil => exact (default_merge (chosen more)).symm
  | cons c clusters ih => rw [List.cons_append, chosen_cons, ih, chosen_cons c clusters, merge_assoc]

end Choices

section Settings

private theorem integer_limit (limit : Limit) : integer? limit.text = some limit.number := by
  obtain ⟨plus, digits, decimal, positive, fits⟩ := limit
  obtain ⟨c, rest, rfl⟩ : ∃ c rest, digits = c :: rest := by
    cases digits with
    | nil => exact absurd positive (Nat.lt_irrefl 0)
    | cons c rest => exact ⟨c, rest, rfl⟩
  have unsigned : c ≠ '+' ∧ c ≠ '-' := by
    constructor <;> rintro rfl <;> cases decimal _ List.mem_cons_self
  have all : (c :: rest).all Number.isDigit = true := List.all_eq_true.mpr decimal
  have inside : -Int.ofNat (Nat.pow 2 63) ≤ Int.ofNat (Number.ofDigits (c :: rest)) ∧
      Int.ofNat (Number.ofDigits (c :: rest)) < Int.ofNat (Nat.pow 2 63) := by
    simp only [Int.ofNat_eq_natCast]
    omega
  have signs : splitSign (Limit.mk plus (c :: rest) decimal positive fits).text.toList = (false, c :: rest) := by
    cases plus <;> simp [splitSign, Limit.text, Limit.chars, unsigned]
  rw [integer?, signs]
  simp only [all, List.isEmpty_cons, Bool.not_true, Bool.or_false, Bool.false_eq_true, if_false, if_pos inside]
  rfl

/-- What the letters of one cluster switch on. -/
def turnedOn (switches : List Switch) : Options where
  verbose := switches.contains .verbose
  ignoreExtension := switches.contains .ignoreExtension
  timing := switches.contains .timing
  noColor := switches.contains .noColor
  help := switches.contains .help

private theorem apply_switch (options : Options) (switch : Switch) :
    options.apply ⟨switch.letter, ""⟩ = .ok (merge options (turnedOn [switch])) := by
  cases switch <;> simp [Switch.letter, Options.apply, merge, turnedOn]

private theorem turnedOn_cons (switch : Switch) (switches : List Switch) :
    turnedOn (switch :: switches) = merge (turnedOn [switch]) (turnedOn switches) := by
  simp [turnedOn, merge]

private theorem apply_switches (options : Options) (switches : List Switch) :
    ((switches.map Switch.letter).map (⟨·, ""⟩)).foldlM Options.apply options =
      .ok (merge options (turnedOn switches)) := by
  induction switches generalizing options with
  | nil => exact congrArg Except.ok (merge_default options).symm
  | cons switch switches ih =>
    rw [List.map_cons, List.map_cons, List.foldlM_cons, apply_switch, turnedOn_cons switch switches, ← merge_assoc]
    exact ih (merge options (turnedOn [switch]))

private theorem apply_limit (options : Options) (limit : Limit) :
    options.apply ⟨'d', limit.text⟩ = .ok (merge options { maxDepth := limit.number }) := by
  have positive := limit.number_pos
  have given : limit.number ≠ 0 := Int.ne_of_gt positive
  simp [Options.apply, integer_limit, merge, given, Int.not_le.mpr positive]

private theorem apply_cluster (options : Options) (c : Cluster) :
    c.flags.foldlM Options.apply options = .ok (merge options (chosen [c])) := by
  obtain ⟨switches, depth, filled⟩ := c
  rw [Cluster.flags, Cluster.letters, List.foldlM_append, apply_switches]
  cases depth with
  | none => simp [chosen, turnedOn, bind, Except.bind, pure, Except.pure]
  | some depth =>
    have both : merge (turnedOn switches) { maxDepth := depth.limit.number } =
        chosen [⟨switches, some depth, filled⟩] := by
      have given : depth.limit.number ≠ 0 := Int.ne_of_gt depth.limit.number_pos
      simp [merge, turnedOn, chosen, given]
    change [Command.Flag.mk 'd' depth.limit.text].foldlM Options.apply (merge options (turnedOn switches)) = _
    rw [List.foldlM_cons, apply_limit, merge_assoc, both]
    rfl

private theorem apply_clusters (options : Options) (clusters : List Cluster) :
    (clusters.flatMap Cluster.flags).foldlM Options.apply options = .ok (merge options (chosen clusters)) := by
  induction clusters generalizing options with
  | nil => exact congrArg Except.ok (merge_default options).symm
  | cons c clusters ih =>
    rw [List.flatMap_cons, List.foldlM_append, apply_cluster, chosen_cons c clusters, ← merge_assoc]
    exact ih (merge options (chosen [c]))

end Settings

section Rounds
variable {reader : OptionReader} {program : String} {clusters : List Cluster} {rest : List String}

private theorem readRounds_last (reads : ReadsOptions reader) (options : Options) (others : List String) :
    readRounds reader program (program :: clusters.flatMap Cluster.words) options others =
      .ok (merge options (chosen clusters), others) := by
  have read := reads program clusters [] (by simp)
  rw [List.append_nil] at read
  rw [readRounds]
  split
  next failed => cases read.symm.trans failed
  next flags index found =>
    cases read.symm.trans found
    simp only [apply_clusters]
    rw [dif_pos (by simp)]

/-- A round that a word ends. The word is set aside, and the next round starts behind it. -/
private theorem readRounds_word (reads : ReadsOptions reader) (options : Options) (others : List String)
    {word : String} (plain : Positional word) :
    readRounds reader program (program :: (clusters.flatMap Cluster.words ++ word :: rest)) options others =
      readRounds reader program (program :: rest) (merge options (chosen clusters)) (others ++ [word]) := by
  have read := reads program clusters (word :: rest) (by simpa using plain)
  rw [readRounds]
  split
  next failed => cases read.symm.trans failed
  next flags index found =>
    cases read.symm.trans found
    simp only [apply_clusters]
    generalize clusters.flatMap Cluster.words = front
    have behind : (program :: (front ++ word :: rest)).drop (front.length + 1 + 1) = rest := by
      rw [List.drop_succ_cons, List.drop_length_add_append]
      rfl
    rw [dif_neg (by simp), behind, List.getElem_cons_succ, List.getElem_append_right (Nat.le_refl _)]
    simp only [Nat.sub_self, List.getElem_cons_zero]

end Rounds

/-- What the items of a line come to, if some options have been read before and wait for the end of their round. -/
private theorem readRounds_items {reader : OptionReader} (reads : ReadsOptions reader) (program : String)
    (items : List LineItem) (clusters : List Cluster) (options : Options) (others : List String) :
    readRounds reader program (program :: (clusters.flatMap Cluster.words ++ wordsOf items)) options others =
      .ok (merge options (chosen (clusters ++ clustersOf items)), others ++ othersOf items) := by
  induction items generalizing clusters options others with
  | nil =>
    have last := @readRounds_last reader program clusters reads options others
    simpa [wordsOf, clustersOf, othersOf] using last
  | cons item items ih =>
    cases item with
    | cluster c =>
      change readRounds reader program (program :: (clusters.flatMap Cluster.words ++ (c.words ++ wordsOf items)))
        options others = .ok (merge options (chosen (clusters ++ c :: clustersOf items)), others ++ othersOf items)
      have later := ih (clusters ++ [c]) options others
      rwa [List.flatMap_append, List.flatMap_singleton, List.append_assoc, List.append_assoc,
        List.singleton_append] at later
    | word word plain =>
      change readRounds reader program (program :: (clusters.flatMap Cluster.words ++ word :: wordsOf items)) options
        others = .ok (merge options (chosen (clusters ++ clustersOf items)), others ++ word :: othersOf items)
      have later := ih [] (merge options (chosen clusters)) (others ++ [word])
      rw [List.append_assoc, List.singleton_append] at later
      rw [readRounds_word reads options others plain, chosen_append, ← merge_assoc]
      exact later

section Reader
variable {program : String} {switches : List Switch}

private theorem cluster_switches (rest : List Char) : cluster letters program (switches.map Switch.letter ++ rest) =
    (cluster letters program rest).map fun (flags, waiting) =>
      ((switches.map Switch.letter).map (⟨·, ""⟩) ++ flags, waiting) := by
  induction switches with
  | nil =>
    rw [List.map_nil, List.nil_append]
    cases cluster letters program rest <;> rfl
  | cons switch switches ih =>
    have step : cluster letters program (switch.letter :: (switches.map Switch.letter ++ rest)) =
        (cluster letters program (switches.map Switch.letter ++ rest)).map fun (flags, waiting) =>
          (⟨switch.letter, ""⟩ :: flags, waiting) := by
      cases switch <;> rfl
    rw [List.map_cons, List.cons_append, step, ih]
    cases cluster letters program rest <;> rfl

private theorem isOptionWord_dashed {chars : List Char} (given : chars ≠ []) :
    isOptionWord (String.ofList ('-' :: chars)) = true := by
  cases chars with
  | nil => exact absurd rfl given
  | cons c chars =>
    rw [isOptionWord, String.toList_ofList]
    rfl

private theorem not_isOptionWord {word : String} (plain : Positional word) : isOptionWord word = false := by
  rcases plain with rfl | rfl | first
  · rfl
  · rfl
  · rw [isOptionWord]
    split
    next chars =>
      rw [chars] at first
      exact absurd rfl first
    next => rfl

variable {chars : List Char} {flags : List Command.Flag} {waiting : Option Char}

/-- A second dash is no letter. -/
private theorem dashed_ne_dashes (read : cluster letters program chars = .ok (flags, waiting)) :
    String.ofList ('-' :: chars) ≠ "--" := by
  intro dashes
  have same := congrArg String.toList dashes
  rw [String.toList_ofList] at same
  cases same
  cases read

private theorem frontFlags_closed (given : chars ≠ []) (read : cluster letters program chars = .ok (flags, none))
    (words : List String) : frontFlags letters program (String.ofList ('-' :: chars) :: words) =
      (frontFlags letters program words).map fun (later, count) => (flags ++ later, count + 1) := by
  rw [frontFlags, isOptionWord_dashed given, if_neg (by simp), if_neg (dashed_ne_dashes read), String.toList_ofList,
    List.drop_one, List.tail_cons, read]

private theorem frontFlags_waiting {letter : Char} (given : chars ≠ [])
    (read : cluster letters program chars = .ok (flags, some letter)) (value : String) (words : List String) :
    frontFlags letters program (String.ofList ('-' :: chars) :: value :: words) =
      (frontFlags letters program words).map fun (later, count) => (flags ++ ⟨letter, value⟩ :: later, count + 2) := by
  rw [frontFlags, isOptionWord_dashed given, if_neg (by simp), if_neg (dashed_ne_dashes read), String.toList_ofList,
    List.drop_one, List.tail_cons, read]

private theorem Limit.chars_ne_nil (limit : Limit) : limit.chars ≠ [] := by
  intro none
  have digits : limit.digits = [] := (List.append_eq_nil_iff.mp none).2
  have positive := limit.positive
  rw [digits] at positive
  exact Nat.lt_irrefl 0 positive

private theorem frontFlags_cluster (c : Cluster) (words : List String) :
    frontFlags letters program (c.words ++ words) =
      (frontFlags letters program words).map fun (later, count) => (c.flags ++ later, count + c.words.length) := by
  obtain ⟨switches, depth, filled⟩ := c
  cases depth with
  | none =>
    have given : switches.map Switch.letter ≠ [] := by simpa using filled
    have read := @cluster_switches program switches []
    rw [List.append_nil] at read
    exact frontFlags_closed given read words
  | some depth =>
    obtain ⟨limit, attached⟩ := depth
    cases attached with
    | true =>
      have value : cluster letters program ('d' :: limit.chars) = .ok ([⟨'d', limit.text⟩], none) :=
        if_neg (by simpa using limit.chars_ne_nil)
      have read := @cluster_switches program switches ('d' :: limit.chars)
      rw [value] at read
      exact frontFlags_closed (by simp) read words
    | false =>
      have read := @cluster_switches program switches ['d']
      have front := frontFlags_waiting (by simp) read limit.text words
      simpa [Cluster.words, Cluster.flags, Cluster.letters] using front

private theorem frontFlags_clusters (clusters : List Cluster) {rest : List String}
    (stop : ∀ word ∈ rest.head?, Positional word) :
    frontFlags letters program (clusters.flatMap Cluster.words ++ rest) =
      .ok (clusters.flatMap Cluster.flags, (clusters.flatMap Cluster.words).length) := by
  induction clusters with
  | nil =>
    cases rest with
    | nil => rfl
    | cons word rest =>
      change frontFlags letters program (word :: rest) = _
      rw [frontFlags, not_isOptionWord (stop word rfl)]
      rfl
  | cons c clusters ih =>
    rw [List.flatMap_cons, List.append_assoc, frontFlags_cluster, ih]
    simp [Except.map, Nat.add_comm]

end Reader

/-- The reader of the command line program reads options in this way. -/
theorem getopt_readsOptions : ReadsOptions (getopt letters) := by
  intro program clusters rest stop
  change (frontFlags letters program (clusters.flatMap Cluster.words ++ rest)).map _ = _
  rw [frontFlags_clusters clusters stop]
  rfl

/-- Options may stand anywhere. Whatever reads the options of one round, up to the first word that is none, a command
line of options and other words in any order is read without an error: the other words come in their order, a switch is
on just if its letter stands in one of the options, and the limit is that of the last option that has one. So it does
not matter how the two are mixed. -/
theorem options_stand_anywhere (reader : OptionReader) (reads : ReadsOptions reader) (program : String)
    (items : List LineItem) :
    readWords reader program (wordsOf items) = .ok (chosen (clustersOf items), othersOf items) ∧
    ∀ others, clustersOf others = clustersOf items → othersOf others = othersOf items →
      readWords reader program (wordsOf others) = readWords reader program (wordsOf items) := by
  have read : ∀ items, readWords reader program (wordsOf items) =
      .ok (chosen (clustersOf items), othersOf items) := by
    intro items
    have rounds := readRounds_items reads program items [] {} []
    rwa [default_merge] at rounds
  refine ⟨read items, ?_⟩
  intro others clusters words
  rw [read, read, clusters, words]

/-- Two limits, of which the second one has a word of its own, and a word with nothing in it. -/
theorem mixed_line_read_as_sorted :
    ReadsOptions (getopt letters) ∧
    readWords (getopt letters) "kody" ["a", "-vd9", "", "-t", "-ed", "+07", "-"] =
      .ok ({ verbose := true, ignoreExtension := true, timing := true, maxDepth := 7 }, ["a", "", "-"]) ∧
    readWords (getopt letters) "kody" ["-vd9", "-t", "-ed", "+07", "a", "", "-"] =
      readWords (getopt letters) "kody" ["a", "-vd9", "", "-t", "-ed", "+07", "-"] := by
  have nine : ∀ c ∈ ['9'], Number.isDigit c = true := List.all_eq_true.mp (by decide)
  have seven : ∀ c ∈ ['0', '7'], Number.isDigit c = true := List.all_eq_true.mp (by decide)
  let loud : Cluster := ⟨[.verbose], some ⟨⟨false, ['9'], nine, by decide, by decide⟩, true⟩, Or.inr rfl⟩
  let timed : Cluster := ⟨[.timing], none, by decide⟩
  let deep : Cluster := ⟨[.ignoreExtension], some ⟨⟨true, ['0', '7'], seven, by decide, by decide⟩, false⟩, Or.inr rfl⟩
  let first : LineItem := .word "a" (by decide)
  let second : LineItem := .word "" (by decide)
  let third : LineItem := .word "-" (by decide)
  have mixed := options_stand_anywhere (getopt letters) getopt_readsOptions "kody"
    [first, .cluster loud, second, .cluster timed, .cluster deep, third]
  exact ⟨getopt_readsOptions, mixed.1,
    mixed.2 [.cluster loud, .cluster timed, .cluster deep, first, second, third] rfl rfl⟩

end Scriptlet.Proofs.OptionPlacement
