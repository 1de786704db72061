import Scriptlet.Proofs.GrammarSegments

/-! What the scan for the end of a statement takes, as a relation between the tokens taken and those that follow.
A measured length says no more than that these tokens are taken, and no less, so a fact about the scan is proved
by induction on how the tokens were taken. -/

namespace Scriptlet.Proofs.StatementScan
open Grammar GrammarNesting GrammarSegments

/-- What is looked for: a whole statement, what belongs to the statement inside so many parentheses, or what
belongs to it behind a token. -/
inductive Task where
  | whole
  | inside (started : Bool) (parens : Nat)
  | behind (parens : Nat) (last : Token)

inductive Takes : Task → List Token → List Token → Prop where
  | branch {word : Token} {condition action rest : List Token} (kind : word.kind = .ifWord)
      (first : Takes .whole condition (action ++ rest)) (second : Takes .whole action rest)
      (alone : ∀ t ∈ rest.head?, t.kind ≠ .elseWord) : Takes .whole (word :: (condition ++ action)) rest
  | choice {word opposite : Token} {condition action otherwise rest : List Token} (kind : word.kind = .ifWord)
      (first : Takes .whole condition (action ++ opposite :: (otherwise ++ rest)))
      (second : Takes .whole action (opposite :: (otherwise ++ rest))) (turns : opposite.kind = .elseWord)
      (third : Takes .whole otherwise rest) :
      Takes .whole (word :: (condition ++ (action ++ opposite :: otherwise))) rest
  | loop {word : Token} {condition action rest : List Token} (kind : word.kind = .whileWord)
      (first : Takes .whole condition (action ++ rest)) (second : Takes .whole action rest) :
      Takes .whole (word :: (condition ++ action)) rest
  | stop {word : Token} {rest : List Token} (kind : word.kind = .returnWord)
      (alone : ∀ t ∈ rest.head?, t.kind = .elseWord ∨ t.kind = .closeBrace) : Takes .whole [word] rest
  | ret {word : Token} {value rest : List Token} (kind : word.kind = .returnWord)
      (given : ∃ t ∈ (value ++ rest).head?, t.kind ≠ .elseWord ∧ t.kind ≠ .closeBrace)
      (after : Takes (.inside true 0) value rest) : Takes .whole (word :: value) rest
  | plain {t : Token} {ts rest : List Token}
      (kind : t.kind ≠ .ifWord ∧ t.kind ≠ .whileWord ∧ t.kind ≠ .returnWord)
      (after : Takes (.inside false 0) (t :: ts) rest) : Takes .whole (t :: ts) rest
  | ended {started : Bool} {parens : Nat} : Takes (.inside started parens) [] []
  | closed {t : Token} {rest : List Token} (kind : t.kind = .closeParen ∨ t.kind = .comma) :
      Takes (.inside true 0) [] (t :: rest)
  | construct {started : Bool} {parens : Nat} {word last : Token} {inner ts rest : List Token}
      (kind : word.kind = .ifWord ∨ word.kind = .whileWord)
      (first : Takes .whole (word :: (inner ++ [last])) (ts ++ rest)) (after : Takes (.behind parens last) ts rest) :
      Takes (.inside started parens) (word :: (inner ++ last :: ts)) rest
  | block {started : Bool} {parens : Nat} {brace last : Token} {inner ts rest : List Token}
      (opens : brace.kind = .openBrace) (closes : last.kind = .closeBrace) (nested : Nested inner)
      (after : Takes (.behind parens last) ts rest) :
      Takes (.inside started parens) (brace :: (inner ++ last :: ts)) rest
  | opens {started : Bool} {parens : Nat} {t : Token} {ts rest : List Token} (kind : t.kind = .openParen)
      (after : Takes (.inside true (parens + 1)) ts rest) : Takes (.inside started parens) (t :: ts) rest
  | closes {started : Bool} {parens : Nat} {t : Token} {ts rest : List Token} (kind : t.kind = .closeParen)
      (after : Takes (.behind parens t) ts rest) : Takes (.inside started (parens + 1)) (t :: ts) rest
  | comma {started : Bool} {parens : Nat} {t : Token} {ts rest : List Token} (kind : t.kind = .comma)
      (after : Takes (.inside true (parens + 1)) ts rest) : Takes (.inside started (parens + 1)) (t :: ts) rest
  | ordinary {started : Bool} {parens : Nat} {t : Token} {ts rest : List Token} (kind : isOrdinary t.kind = true)
      (after : Takes (.behind parens t) ts rest) : Takes (.inside started parens) (t :: ts) rest
  | boundary {parens : Nat} {last : Token} {rest : List Token} (ends : isBoundary parens last rest = true) :
      Takes (.behind parens last) [] rest
  | onward {parens : Nat} {last : Token} {ts rest : List Token} (goes : isBoundary parens last (ts ++ rest) = false)
      (after : Takes (.inside true parens) ts rest) : Takes (.behind parens last) ts rest

theorem Takes.ne_nil {ts rest : List Token} (takes : Takes .whole ts rest) : ts ≠ [] := by
  cases takes <;> simp

/-- The length that is measured for a task. -/
def Task.measure : Task → List Token → Except ParseError Nat
  | .whole, ts => segmentLength ts
  | .inside started parens, ts => scanLength started parens ts
  | .behind parens last, ts => GrammarSegments.onward parens last 0 ts

private theorem onward_eq (parens : Nat) (last : Token) (length : Nat) (rest : List Token) :
    onward parens last length rest = (onward parens last 0 rest).map (length + ·) :=
  (map_onward last length 0).symm

theorem Takes.measured {task : Task} {ts rest : List Token} (takes : Takes task ts rest) :
    task.measure (ts ++ rest) = .ok ts.length := by
  induction takes with
  | @branch word condition action rest kind first second alone ihFirst ihSecond =>
    have lengths := @branchLengths_plain rest word condition action ihFirst ihSecond second.ne_nil alone
    rw [Task.measure, List.cons_append, List.append_assoc, segment_branch_word kind, lengths]
    simp only [Except.map, BranchLengths.total, List.length_cons, List.length_append]
    congr 1
    omega
  | @choice word opposite condition action otherwise rest kind first second turns third ihFirst ihSecond ihThird =>
    have lengths := @branchLengths_else opposite rest word condition action otherwise ihFirst ihSecond
      second.ne_nil turns ihThird third.ne_nil
    rw [Task.measure, List.cons_append, List.append_assoc, List.append_assoc, List.cons_append,
      segment_branch_word kind, lengths]
    simp only [Except.map, BranchLengths.total, List.length_cons, List.length_append]
    congr 1
    omega
  | @loop word condition action rest kind first second ihFirst ihSecond =>
    have lengths := @loopLengths_eq rest word condition action ihFirst ihSecond second.ne_nil
    rw [Task.measure, List.cons_append, List.append_assoc, segment_loop_word kind, lengths]
    simp only [Except.map, LoopLengths.total, List.length_cons, List.length_append]
    congr 1
    omega
  | @stop word rest kind alone =>
    rw [Task.measure, List.cons_append, List.nil_append, segmentLength]
    simp only [kind]
    cases rest with
    | nil => rfl
    | cons t rest => rw [if_pos (by simpa using alone t rfl), List.length_singleton]
  | @ret word value rest kind given after ih =>
    obtain ⟨t, front, other⟩ := given
    rw [Task.measure] at ih
    rw [Task.measure, List.cons_append, segmentLength]
    simp only [kind, Option.mem_def.mp front]
    rw [if_neg (by simpa using other), ih]
    simp only [Except.map, List.length_cons]
    congr 1
    omega
  | plain kind after ih =>
    rw [← ih]
    exact segment_scan kind.1 kind.2.1 kind.2.2
  | ended => simp [Task.measure, scanLength]
  | closed kind =>
    rcases kind with kind | kind <;> simp [Task.measure, scanLength, kind]
  | @construct started parens word last inner ts rest kind first after ihFirst ihAfter =>
    simp only [Task.measure, List.cons_append, List.append_assoc, List.nil_append, List.length_cons,
      List.length_append, List.length_nil] at ihFirst ihAfter ⊢
    rw [scan_construct kind ihFirst, onward_eq, ihAfter]
    simp only [Except.map]
    congr 1
    omega
  | @block started parens brace last inner ts rest opens closes nested after ih =>
    simp only [Task.measure, List.cons_append, List.append_assoc, List.length_cons, List.length_append] at ih ⊢
    rw [scan_block opens closes nested, onward_eq, ih]
    simp only [Except.map]
    congr 1
    omega
  | opens kind after ih =>
    simp only [Task.measure] at ih ⊢
    rw [List.cons_append, scan_open kind, ih]
    simp only [Except.map, List.length_cons, Nat.add_comm]
  | closes kind after ih =>
    simp only [Task.measure] at ih ⊢
    rw [List.cons_append, scan_close kind, onward_eq, ih]
    simp only [Except.map, List.length_cons, Nat.add_comm]
  | comma kind after ih =>
    simp only [Task.measure] at ih ⊢
    rw [List.cons_append, scan_comma kind, ih]
    simp only [Except.map, List.length_cons, Nat.add_comm]
  | ordinary kind after ih =>
    simp only [Task.measure] at ih ⊢
    rw [List.cons_append, scan_ordinary kind, onward_eq, ih]
    simp only [Except.map, List.length_cons, Nat.add_comm]
  | boundary ends =>
    rw [Task.measure, GrammarSegments.onward, List.nil_append, if_pos ends]
    rfl
  | onward goes after ih =>
    simp only [Task.measure] at ih ⊢
    rw [GrammarSegments.onward, if_neg (by simp [goes]), ih]
    simp only [Except.map, Nat.zero_add]

/-- Every opening brace has its partner, and what is between them is nested. -/
def BracesNested (ts : List Token) : Prop :=
  ∀ before brace after, ts = before ++ brace :: after → brace.kind = .openBrace →
    ∃ inner last rest, after = inner ++ last :: rest ∧ last.kind = .closeBrace ∧ Nested inner

theorem BracesNested.suffix {front rest : List Token} (braced : BracesNested (front ++ rest)) : BracesNested rest := by
  intro before brace after whole opens
  exact braced (front ++ before) brace after (by rw [whole, List.append_assoc]) opens

theorem bracesNested_of_nested {ts : List Token} (nested : Nested ts) : BracesNested ts := by
  intro before brace after whole opens
  induction nested generalizing before brace after with
  | nil => simp at whole
  | @plain t rest outside nested ih =>
    cases before with
    | nil =>
      cases whole
      simp [IsBracket, opens] at outside
    | cons _ before =>
      cases whole
      exact ih before brace after rfl opens
  | @bracket first last inner rest pair inside later ihInside ihLater =>
    cases before with
    | nil =>
      cases whole
      refine ⟨inner, last, rest, rfl, ?_, inside⟩
      rcases pair with ⟨wrong, _⟩ | ⟨_, closes⟩
      · simp [opens] at wrong
      · exact closes
    | cons _ before =>
      obtain ⟨rfl, onward⟩ := List.cons.inj whole
      -- The brace is within the brackets, the closing one, or behind it.
      rcases List.append_eq_append_iff.mp onward with ⟨back, rfl, split⟩ | ⟨front, rfl, split⟩
      · cases back with
        | nil =>
          cases split
          rcases pair with ⟨_, closes⟩ | ⟨_, closes⟩ <;> simp [opens] at closes
        | cons _ back =>
          cases split
          exact ihLater back brace after rfl opens
      · cases front with
        | nil =>
          cases split
          rcases pair with ⟨_, closes⟩ | ⟨_, closes⟩ <;> simp [opens] at closes
        | cons _ front =>
          cases split
          obtain ⟨within, partner, others, rfl, closes, nested⟩ := ihInside before brace front rfl opens
          exact ⟨within, partner, others ++ last :: rest, by simp, closes, nested⟩

/-- So many tokens at the front are taken. -/
def Splits (task : Task) (ts : List Token) (n : Nat) : Prop :=
  ∃ front rest, ts = front ++ rest ∧ front.length = n ∧ Takes task front rest

private theorem takes_behind {parens n length : Nat} {last : Token} {ts : List Token}
    (later : ∀ n, scanLength true parens ts = .ok n → Splits (.inside true parens) ts n)
    (found : onward parens last length ts = .ok n) :
    ∃ front rest, ts = front ++ rest ∧ length + front.length = n ∧ Takes (.behind parens last) front rest := by
  rw [onward] at found
  split at found
  next ends =>
    cases found
    exact ⟨[], ts, rfl, rfl, .boundary ends⟩
  next goes =>
    obtain ⟨k, scanned, rfl⟩ := map_eq_ok found
    obtain ⟨front, rest, rfl, rfl, takes⟩ := later k scanned
    exact ⟨front, rest, rfl, rfl, .onward (by simpa using goes) takes⟩

/-- Behind an `if` or `while` inside a statement the scan goes on. -/
theorem takes_construct {started : Bool} {parens n : Nat} {word : Token} {front rest : List Token}
    (kind : word.kind = .ifWord ∨ word.kind = .whileWord) (first : Takes .whole (word :: front) rest)
    (later : ∀ n, scanLength true parens rest = .ok n → Splits (.inside true parens) rest n)
    (found : scanLength started parens (word :: (front ++ rest)) = .ok n) :
    Splits (.inside started parens) (word :: (front ++ rest)) n := by
  have some : front ≠ [] := by
    cases first with
    | branch _ condition => simp [condition.ne_nil]
    | choice _ condition => simp [condition.ne_nil]
    | loop _ condition => simp [condition.ne_nil]
    | stop ret => simp [ret] at kind
    | ret ret => simp [ret] at kind
    | plain other => simp [other.1, other.2.1] at kind
  obtain ⟨inner, last, rfl⟩ : ∃ inner last, front = inner ++ [last] :=
    ⟨_, _, (List.dropLast_concat_getLast some).symm⟩
  have length := first.measured
  simp only [Task.measure, List.cons_append, List.append_assoc, List.nil_append, List.length_cons, List.length_append,
    List.length_nil] at length found
  rw [scan_construct kind length] at found
  obtain ⟨more, rest, rfl, rfl, takes⟩ := takes_behind later found
  refine ⟨word :: (inner ++ last :: more), rest, by simp, ?_, .construct kind first takes⟩
  simp only [List.length_cons, List.length_append]
  omega

private theorem ordinary_or (kind : TokenKind) :
    isOrdinary kind = true ∨ kind ∈ [.ifWord, .whileWord, .openBrace, .openParen,
    .closeParen, .comma, .closeBrace, .funcWord, .elseWord, .returnWord] := by
  cases kind <;> simp [isOrdinary]

mutual

theorem takes_of_segment {ts : List Token} {n : Nat} (braced : BracesNested ts) (found : segmentLength ts = .ok n) :
    Splits .whole ts n := by
  match ts with
  | [] =>
    rw [segmentLength] at found
    cases found
  | t :: rest =>
    have later : BracesNested rest := @BracesNested.suffix [t] rest braced
    by_cases branch : t.kind = .ifWord
    · rw [segment_branch_word branch] at found
      obtain ⟨parts, lengths, rfl⟩ := map_eq_ok found
      obtain ⟨front, rest, rfl, total, takes⟩ := takes_of_branch branch later lengths
      exact ⟨t :: front, rest, rfl, total, takes⟩
    by_cases loop : t.kind = .whileWord
    · rw [segment_loop_word loop] at found
      obtain ⟨parts, lengths, rfl⟩ := map_eq_ok found
      obtain ⟨front, rest, rfl, total, takes⟩ := takes_of_loop loop later lengths
      exact ⟨t :: front, rest, rfl, total, takes⟩
    by_cases ret : t.kind = .returnWord
    · rw [segmentLength] at found
      simp only [ret] at found
      split at found
      next alone =>
        cases found
        refine ⟨[t], rest, rfl, rfl, .stop ret ?_⟩
        intro next front
        simpa [Option.mem_def.mp front] using alone
      next given =>
        obtain ⟨k, scanned, rfl⟩ := map_eq_ok found
        obtain ⟨value, rest, rfl, rfl, takes⟩ := takes_of_scan later scanned
        refine ⟨t :: value, rest, rfl, Nat.add_comm .., .ret ret ?_ takes⟩
        cases front : (value ++ rest).head? with
        | none => simp [front] at given
        | some next => exact ⟨next, rfl, by simpa [front] using given⟩
    · rw [segment_scan branch loop ret] at found
      obtain ⟨front, after, whole, length, takes⟩ := takes_of_scan braced found
      cases front with
      | nil =>
        rw [List.nil_append] at whole
        subst whole
        cases takes
      | cons first front =>
        obtain ⟨rfl, rfl⟩ := List.cons.inj whole
        exact ⟨_, _, rfl, length, .plain ⟨branch, loop, ret⟩ takes⟩
termination_by 3 * ts.length + 2
decreasing_by all_goals subst_vars; simp +arith

theorem takes_of_scan {started : Bool} {parens n : Nat} {ts : List Token} (braced : BracesNested ts)
    (found : scanLength started parens ts = .ok n) : Splits (.inside started parens) ts n := by
  match ts with
  | [] =>
    rw [scanLength] at found
    cases found
    exact ⟨[], [], rfl, rfl, .ended⟩
  | t :: rest =>
    have later : BracesNested rest := @BracesNested.suffix [t] rest braced
    rcases ordinary_or t.kind with ordinary | special
    · rw [scan_ordinary ordinary] at found
      obtain ⟨front, rest, rfl, rfl, takes⟩ := takes_behind (fun n scanned => takes_of_scan later scanned) found
      exact ⟨t :: front, rest, rfl, Nat.add_comm .., .ordinary ordinary takes⟩
    simp only [List.mem_cons, List.not_mem_nil, or_false] at special
    rcases special with kind | kind | kind | kind | kind | kind | kind | kind | kind | kind
    · have start := found
      rw [scanLength] at start
      simp only [kind] at start
      obtain ⟨parts, lengths, _⟩ := bind_eq_ok start
      obtain ⟨front, rest, rfl, _, takes⟩ := takes_of_branch kind later lengths
      exact takes_construct (Or.inl kind) takes (fun n scanned => takes_of_scan later.suffix scanned) found
    · have start := found
      rw [scanLength] at start
      simp only [kind] at start
      obtain ⟨parts, lengths, _⟩ := bind_eq_ok start
      obtain ⟨front, rest, rfl, _, takes⟩ := takes_of_loop kind later lengths
      exact takes_construct (Or.inr kind) takes (fun n scanned => takes_of_scan later.suffix scanned) found
    · obtain ⟨inner, last, rest, rfl, closes, nested⟩ := braced [] t rest rfl kind
      rw [scan_block kind closes nested] at found
      have behind : BracesNested rest := @BracesNested.suffix (inner ++ [last]) rest (by simpa using later)
      obtain ⟨front, rest, rfl, rfl, takes⟩ := takes_behind (fun n scanned => takes_of_scan behind scanned) found
      refine ⟨t :: (inner ++ last :: front), rest, by simp, ?_, .block kind closes nested takes⟩
      simp only [List.length_cons, List.length_append]
      omega
    · rw [scan_open kind] at found
      obtain ⟨k, scanned, rfl⟩ := map_eq_ok found
      obtain ⟨front, rest, rfl, rfl, takes⟩ := takes_of_scan later scanned
      exact ⟨t :: front, rest, rfl, Nat.add_comm .., .opens kind takes⟩
    · cases parens with
      | zero =>
        rw [scanLength] at found
        simp only [kind, ↓reduceIte] at found
        split at found
        next begun =>
          cases found
          subst begun
          exact ⟨[], t :: rest, rfl, rfl, .closed (Or.inl kind)⟩
        · cases found
      | succ parens =>
        rw [scan_close kind] at found
        obtain ⟨front, rest, rfl, rfl, takes⟩ := takes_behind (fun n scanned => takes_of_scan later scanned) found
        exact ⟨t :: front, rest, rfl, Nat.add_comm .., .closes kind takes⟩
    · cases parens with
      | zero =>
        rw [scanLength] at found
        simp only [kind, ↓reduceIte] at found
        split at found
        next begun =>
          cases found
          subst begun
          exact ⟨[], t :: rest, rfl, rfl, .closed (Or.inr kind)⟩
        · cases found
      | succ parens =>
        rw [scan_comma kind] at found
        obtain ⟨k, scanned, rfl⟩ := map_eq_ok found
        obtain ⟨front, rest, rfl, rfl, takes⟩ := takes_of_scan later scanned
        exact ⟨t :: front, rest, rfl, Nat.add_comm .., .comma kind takes⟩
    all_goals
      rw [scanLength] at found
      simp only [kind] at found
      cases found
termination_by 3 * ts.length + 1
decreasing_by all_goals subst_vars; simp +arith

theorem takes_of_branch {word : Token} {body : List Token} {parts : BranchLengths} (kind : word.kind = .ifWord)
    (braced : BracesNested body) (found : branchLengths word body = .ok parts) :
    ∃ front rest, body = front ++ rest ∧ front.length + 1 = parts.total ∧ Takes .whole (word :: front) rest := by
  rw [branchLengths] at found
  split at found
  · cases found
  · obtain ⟨n, first, found⟩ := bind_eq_ok found
    obtain ⟨condition, rest, rfl, rfl, takes⟩ := takes_of_segment braced first
    simp only [List.drop_left] at found
    split at found
    · cases found
    · obtain ⟨n, second, found⟩ := bind_eq_ok found
      obtain ⟨action, rest, rfl, rfl, ends⟩ := takes_of_segment braced.suffix second
      have next : (condition ++ (action ++ rest))[condition.length + action.length]? = rest.head? := by
        rw [← List.append_assoc, ← List.length_append, List.getElem?_append_right (Nat.le_refl _), Nat.sub_self,
          List.head?_eq_getElem?]
      have behind : (condition ++ (action ++ rest)).drop (condition.length + action.length + 1) = rest.tail := by
        rw [← List.append_assoc, ← List.length_append, ← List.drop_drop, List.drop_left, List.drop_one]
      simp only [next] at found
      cases rest with
      | nil =>
        cases found
        refine ⟨condition ++ action, [], by simp, ?_, .branch kind takes ends (by simp)⟩
        simp only [BranchLengths.total, List.length_append]
        omega
      | cons opposite rest =>
        simp only [List.head?_cons] at found
        split at found
        next turns =>
          split at found
          · cases found
          · obtain ⟨n, third, found⟩ := bind_eq_ok found
            cases found
            rw [behind, List.tail_cons] at third
            have after : BracesNested rest := @BracesNested.suffix [opposite] rest braced.suffix.suffix
            obtain ⟨otherwise, rest, rfl, rfl, last⟩ := takes_of_segment after third
            refine ⟨condition ++ (action ++ opposite :: otherwise), rest, by simp, ?_,
              .choice kind takes ends turns last⟩
            simp only [BranchLengths.total, List.length_append, List.length_cons]
            omega
        next other =>
          cases found
          refine ⟨condition ++ action, opposite :: rest, by simp, ?_, .branch kind takes ends (by simpa using other)⟩
          simp only [BranchLengths.total, List.length_append]
          omega
termination_by 3 * body.length + 3
decreasing_by all_goals subst_vars; simp +arith

theorem takes_of_loop {word : Token} {body : List Token} {parts : LoopLengths} (kind : word.kind = .whileWord)
    (braced : BracesNested body) (found : loopLengths word body = .ok parts) :
    ∃ front rest, body = front ++ rest ∧ front.length + 1 = parts.total ∧ Takes .whole (word :: front) rest := by
  rw [loopLengths] at found
  split at found
  · cases found
  · obtain ⟨n, first, found⟩ := bind_eq_ok found
    obtain ⟨condition, rest, rfl, rfl, takes⟩ := takes_of_segment braced first
    simp only [List.drop_left] at found
    split at found
    · cases found
    · obtain ⟨n, second, found⟩ := bind_eq_ok found
      cases found
      obtain ⟨action, rest, rfl, rfl, ends⟩ := takes_of_segment braced.suffix second
      refine ⟨condition ++ action, rest, by simp, ?_, .loop kind takes ends⟩
      simp only [LoopLengths.total, List.length_append]
      omega
termination_by 3 * body.length + 3
decreasing_by all_goals subst_vars; simp +arith

end

end Scriptlet.Proofs.StatementScan
