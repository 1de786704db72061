import Scriptlet.Proofs.AcceptedNesting
import Scriptlet.Proofs.GuardedTrees

/-! The watchful reader reads every program that the grammar reads, fails where the grammar fails, and meets with no
mishap on any token list. So no index and no cut is ever out of range, no function is entered again with as many tokens
as before, and every loop comes to an end. -/

namespace Scriptlet.Proofs.GuardedReader
open Grammar GrammarSegments GrammarReading ConcreteSyntax SegmentBounds

section Declarations
variable {word : Token} {name : String} {fuel count i j : Nat} {ts rest : List Token}

/-- What follows in a token list, given by the index at which it begins. -/
def indexed {α : Type} (ts : List Token) (found : α × List Token) : α × Nat := (found.1, ts.length - found.2.length)

private theorem parameterNames_eq (enough : ts.length - j < count) : parameterNames word name ts count j =
    sound ((parameters word name (ts.drop j)).map (indexed ts)) := by
  induction count generalizing j with
  | zero => omega
  | succ count ih =>
    rw [parameterNames]
    cases there : ts.drop j with
    | nil =>
      rw [if_pos (List.drop_eq_nil_iff.mp there)]
      rfl
    | cons param behind =>
      have inside := lt_of_drop there
      have next := drop_succ_of_drop there
      rw [if_neg (by omega), token_eq (token_of_drop there) rfl, sound_ok_bind]
      by_cases named : param.kind = .ident
      · rw [if_neg (not_not_intro named)]
        cases behind with
        | nil =>
          rw [if_pos (List.drop_eq_nil_iff.mp next), parameters, if_pos named]
          rfl
        | cons separator behind =>
          have inside := lt_of_drop next
          have beyond : ts.drop (j + 2) = behind := drop_succ_of_drop next
          rw [if_neg (by omega), token_eq (token_of_drop next) (by omega), sound_ok_bind, parameters,
            if_neg (not_not_intro named)]
          cases separator.kind with
          | comma =>
            dsimp only
            rw [ih (by omega), beyond]
            cases parameters word name behind <;> rfl
          | closeParen =>
            have index : j + 2 = ts.length - behind.length := by
              rw [← beyond, List.length_drop]
              omega
            dsimp only
            rw [index]
            rfl
          | _ => rfl
      · rw [if_pos named]
        cases behind with
        | nil =>
          rw [parameters, if_neg named]
          rfl
        | cons separator behind =>
          rw [parameters, if_pos named]
          rfl

private theorem parametersAt_eq (word : Token) (name : String) (ts : List Token) (j : Nat) :
    parametersAt word name ts j = sound ((parameterList word name (ts.drop j)).map (indexed ts)) := by
  have names := @parameterNames_eq word name (ts.length + 1) j ts (by omega)
  rw [parametersAt]
  cases there : ts.drop j with
  | nil =>
    have beyond := List.drop_eq_nil_iff.mp there
    rw [there] at names
    rw [if_neg (by omega)]
    exact names
  | cons first behind =>
    have inside := lt_of_drop there
    rw [there] at names
    rw [if_pos inside, token_eq (token_of_drop there) rfl, sound_ok_bind, parameterList]
    split
    · have index : j + 1 = ts.length - behind.length := by
        rw [← drop_succ_of_drop there, List.length_drop]
        omega
      rw [index]
      rfl
    · exact names

private theorem nothing_active (bound : Nat) : Below [] bound := by simp [Below]

/-- What is enough for the tree of some tokens is enough for any other call with no more of them. -/
theorem enough_for {stage : Stage} {m n : Nat} (enough : weight (.tree, n) < fuel) (fewer : m ≤ n) :
    weight (stage, m) < fuel := by
  refine Nat.lt_of_le_of_lt ?_ enough
  rw [weight, weight]
  cases stage <;> simp only [Stage.rank] <;> omega

private theorem drop_of_suffix {body : List Token} (suffix : body <:+ ts) : ts.drop (ts.length - body.length) = body :=
  (List.suffix_iff_eq_drop.mp suffix).symm

private theorem body_eq {body : List Token} {params : List String} (enough : weight (.tree, ts.length) < fuel)
    (suffix : body <:+ ts) : (do
      let (segment, _) ← nextSegment fuel [] body
      let node ← tree fuel [] segment
      return ((⟨name, params, node⟩ : Definition), ts.length - body.length + segment.length)) =
      sound ((do
        let length ← segmentLength body
        let node ← parse (body.take length)
        return ((⟨name, params, node⟩ : Definition), body.drop length)).map (indexed ts)) := by
  have size := suffix.length_le
  rw [(agrees fuel).statement [] body (enough_for enough size) (nothing_active _), cutSegment]
  cases measured : segmentLength body with
  | error e => rfl
  | ok n =>
    have bounds := segmentLength_le measured
    have few : (body.take n).length ≤ ts.length := Nat.le_trans (List.length_take_le' ..) size
    have index : ts.length - body.length + (body.take n).length = ts.length - (body.drop n).length := by
      rw [List.length_take, List.length_drop]
      omega
    simp only [Except.map, sound_ok_bind]
    rw [tree_eq (enough_for enough few) (nothing_active _), index, ok_bind]
    cases parse (body.take n) <;> rfl

private theorem declarationAt_eq (enough : weight (.tree, ts.length) < fuel) (there : ts.drop i = word :: rest) :
    declarationAt fuel ts i = sound ((declaration word rest).map (indexed ts)) := by
  have inside := lt_of_drop there
  have next := drop_succ_of_drop there
  rw [declarationAt, token_eq (token_of_drop there) rfl, sound_ok_bind, declaration.eq_def]
  dsimp only
  cases rest with
  | nil =>
    rw [if_pos (List.drop_eq_nil_iff.mp next)]
    rfl
  | cons name rest =>
    have inside := lt_of_drop next
    have second : ts.drop (i + 2) = rest := drop_succ_of_drop next
    rw [if_neg (by omega), token_eq (token_of_drop next) (by omega), sound_ok_bind]
    dsimp only
    by_cases named : name.kind = .ident
    · rw [if_neg (not_not_intro named), if_neg (not_not_intro named)]
      cases rest with
      | nil =>
        rw [if_pos (List.drop_eq_nil_iff.mp second)]
        rfl
      | cons paren rest =>
        have inside := lt_of_drop second
        have third : ts.drop (i + 3) = rest := drop_succ_of_drop second
        rw [if_neg (by omega), token_eq (token_of_drop second) (by omega), sound_ok_bind]
        dsimp only
        by_cases opens : paren.kind = .openParen
        · rw [if_neg (not_not_intro opens), if_neg (not_not_intro opens), parametersAt_eq, third]
          cases listed : parameterList word name.lexeme rest with
          | error e => rfl
          | ok found =>
            obtain ⟨params, body⟩ := found
            obtain ⟨inner, last, rfl, _⟩ := parameterList_cut listed
            have suffix : body <:+ ts :=
              List.IsSuffix.trans ⟨inner ++ [last], by rw [List.append_assoc]; exact third.symm⟩ (List.drop_suffix ..)
            have size := suffix.length_le
            rw [ok_bind]
            simp only [Except.map, sound_ok_bind, indexed]
            cases body with
            | nil =>
              rw [if_pos (by simp)]
              rfl
            | cons first body =>
              rw [if_neg (by rw [List.length_cons] at size ⊢; omega), if_neg (by simp), slice_behind rfl (by omega),
                drop_of_suffix suffix, sound_ok_bind]
              exact body_eq enough suffix
        · rw [if_pos opens, if_pos opens]
          rfl
    · rw [if_pos named, if_pos named]
      rfl

end Declarations

section Rounds
variable {fuel count i : Nat} {ts left : List Token} {functions : List Definition}

/-- What is done at one token, given what was taken out behind it and what was left there. -/
def takeOut (t : Token) (found : List Definition × List Token) : Except ParseError (List Definition × List Token) :=
  if t.kind = .funcWord then (declaration t found.2).map fun read => (addDefinition read.1 found.1, read.2)
  else .ok (found.1, t :: found.2)

private theorem hoist_eq_foldrM (ts : List Token) : hoist ts = ts.foldrM takeOut ([], []) := by
  induction ts with
  | nil => rfl
  | cons t ts ih =>
    rw [hoist, List.foldrM_cons, ih]
    refine congrArg _ (funext fun found => ?_)
    obtain ⟨functions, left⟩ := found
    rw [takeOut]
    by_cases declares : t.kind = .funcWord
    · simp only [if_pos declares]
      cases declaration t left <;> rfl
    · simp only [if_neg declares]
      rfl

private theorem foldrM_bare (bare : ∀ t ∈ ts, t.kind ≠ .funcWord) :
    ts.foldrM takeOut (functions, left) = .ok (functions, ts ++ left) := by
  induction ts with
  | nil => rfl
  | cons t ts ih =>
    obtain ⟨first, others⟩ := List.forall_mem_cons.mp bare
    rw [List.foldrM_cons, ih others, ok_bind, takeOut, if_neg first]
    rfl

/-- There is no word among so many tokens, or the last one is found. -/
theorem lastWord_cases (bound : i ≤ ts.length) :
    (lastWord ts i = sound (.ok none) ∧ ∀ t ∈ ts.take i, t.kind ≠ .funcWord) ∨
    ∃ front word behind, lastWord ts i = sound (.ok (some front.length)) ∧ ts.take i = front ++ word :: behind ∧
      word.kind = .funcWord ∧ ∀ t ∈ behind, t.kind ≠ .funcWord := by
  induction i with
  | zero => exact Or.inl ⟨rfl, by simp⟩
  | succ i ih =>
    have there : ts[i]? = some ts[i] := List.getElem?_eq_getElem bound
    rw [lastWord, token_eq there rfl, sound_ok_bind, List.take_succ_eq_append_getElem bound]
    by_cases word : ts[i].kind = .funcWord
    · rw [if_pos word]
      refine Or.inr ⟨ts.take i, ts[i], [], ?_, rfl, word, by simp⟩
      rw [List.length_take, Nat.min_eq_left (by omega)]
      rfl
    · rw [if_neg word]
      rcases ih (by omega) with ⟨found, bare⟩ | ⟨front, last, behind, found, cut, declares, bare⟩
      · exact Or.inl ⟨found, List.forall_mem_append.mpr ⟨bare, by simpa using word⟩⟩
      · refine Or.inr ⟨front, last, behind ++ [ts[i]], found, ?_, declares,
          List.forall_mem_append.mpr ⟨bare, by simpa using word⟩⟩
        rw [cut, List.append_assoc, List.cons_append]

/-- A declaration leaves some of the tokens behind its word, and not all of them. -/
theorem declaration_shortens {word : Token} {d : Definition} (read : declaration word ts = .ok (d, left)) :
    left <:+ ts ∧ left.length < ts.length := by
  obtain ⟨taken, whole, _⟩ := declaration_cut read
  refine ⟨⟨taken, whole.symm⟩, ?_⟩
  obtain ⟨name, paren, behind, params, body, length, rfl, _, _, listed, _, rfl, _⟩ := declaration_parts read
  obtain ⟨inner, last, rfl, _⟩ := parameterList_cut listed
  simp only [List.length_drop, List.length_cons, List.length_append]
  omega

private theorem rounds_eq (enough : weight (.tree, ts.length) < fuel) (turns : ts.length < count) :
    rounds fuel count functions ts = sound (ts.foldrM takeOut (functions, [])) := by
  induction count generalizing functions ts with
  | zero => omega
  | succ count ih =>
    rw [rounds]
    have all := List.take_length (l := ts)
    rcases lastWord_cases (Nat.le_refl ts.length) with ⟨found, bare⟩ | ⟨front, word, behind, found, cut, declares, bare⟩
    · rw [all] at bare
      rw [found, sound_ok_bind, foldrM_bare bare, List.append_nil]
      rfl
    · rw [all] at cut
      have there : ts.drop front.length = word :: behind := by rw [cut, List.drop_left]
      rw [found, sound_ok_bind]
      dsimp only
      have taken : ts.foldrM takeOut (functions, []) = takeOut word (functions, behind) >>= front.foldrM takeOut := by
        rw [cut, List.foldrM_append, List.foldrM_cons, foldrM_bare bare, ok_bind, List.append_nil]
      rw [declarationAt_eq enough there, taken, takeOut, if_pos declares]
      dsimp only
      cases read : declaration word behind with
      | error e => rfl
      | ok found =>
        obtain ⟨d, left⟩ := found
        obtain ⟨suffix, shorter⟩ := declaration_shortens read
        have bareLeft : ∀ t ∈ left, t.kind ≠ .funcWord := fun t member => bare t (suffix.subset member)
        have within : left <:+ ts := cut ▸ suffix.trans ((List.suffix_cons ..).trans (List.suffix_append ..))
        have before : slice ts 0 front.length = sound (.ok front) := @slice_left _ ⟨front, word, behind⟩ cut
        have fewer : (front ++ left).length < ts.length := by
          rw [cut, List.length_append, List.length_append, List.length_cons]
          omega
        have onward := @ih (front ++ left) (addDefinition d functions) (enough_for enough (Nat.le_of_lt fewer))
          (by omega)
        rw [List.foldrM_append, foldrM_bare bareLeft, ok_bind, List.append_nil] at onward
        simp only [Except.map, sound_ok_bind, indexed]
        rw [before, sound_ok_bind, slice_behind rfl (Nat.sub_le _ _), drop_of_suffix within, sound_ok_bind, if_pos fewer,
          onward]
        rfl

private theorem rounds_eq_hoist (enough : weight (.tree, ts.length) < fuel) :
    rounds fuel (ts.length + 1) [] ts = sound (hoist ts) := by
  rw [rounds_eq enough (Nat.lt_succ_self _), hoist_eq_foldrM]

private theorem hoist_length_le (hoisted : hoist ts = .ok (functions, left)) : left.length ≤ ts.length := by
  induction ts generalizing functions left with
  | nil =>
    cases hoisted
    exact Nat.le_refl _
  | cons t ts ih =>
    obtain ⟨⟨later, middle⟩, found, hoisted⟩ := bind_eq_ok hoisted
    have behind := ih found
    dsimp only at hoisted
    split at hoisted
    · obtain ⟨⟨d, after⟩, read, done⟩ := bind_eq_ok hoisted
      cases done
      have shorter := (declaration_shortens read).2
      dsimp only
      rw [List.length_cons]
      omega
    · cases hoisted
      exact Nat.succ_le_succ behind

end Rounds

section Programs
variable {fuel : Nat} {ts : List Token}

private theorem statements_eq {rest : List Token} (enough : weight (.tree, ts.length) < fuel)
    (fewer : rest.length ≤ ts.length) :
    blockNodes (outermost fuel) (rest.length + 1) rest = sound (parseStatements rest) := by
  refine blockNodes_eq (fun us among => ?_) (fun us among => ?_) (Nat.lt_succ_self _)
  · exact (agrees fuel).statement [] us (enough_for enough (Nat.le_trans among fewer)) (nothing_active _)
  · exact tree_eq (enough_for enough (Nat.le_trans among fewer)) (nothing_active _)

private theorem readTokens_eq (fragment : Bool) (enough : weight (.tree, ts.length) < fuel) :
    readTokens fragment fuel ts = sound (if fragment then parseFragment ts else parseProgram ts) := by
  rw [readTokens, rounds_eq_hoist enough, parseFragment, parseProgram]
  cases hoisted : hoist ts with
  | error e => cases fragment <;> rfl
  | ok found =>
    obtain ⟨functions, rest⟩ := found
    have read := statements_eq enough (hoist_length_le hoisted)
    simp only [sound_ok_bind, ok_bind]
    cases rest with
    | nil => cases fragment <;> rfl
    | cons first rest =>
      rw [if_neg (by simp), token_front, sound_ok_bind, read]
      cases fragment <;> cases parseStatements (first :: rest) <;> rfl

/-- An outcome without a mishap is a failure of the grammar or something good. -/
theorem sound_map_cases {α β : Type} {computation : Guarded β} {outcome : Except ParseError α} {f : α → β}
    {Good : β → α → Prop} (same : computation = sound (outcome.map f)) (good : ∀ a, outcome = .ok a → Good (f a) a) :
    (∃ e, computation = sound (.error e) ∧ outcome = .error e) ∨
    ∃ b a, computation = sound (.ok b) ∧ outcome = .ok a ∧ Good b a := by
  cases outcome with
  | error e => exact Or.inl ⟨e, same, rfl⟩
  | ok a => exact Or.inr ⟨f a, a, same, rfl, good a rfl⟩

/-- What the watchful reader shows of the reading of a token list. It never stops with a mishap, and its outcomes are
those of the grammar. -/
structure InBounds (fuel : Nat) (ts : List Token) : Prop where
  statement : ts ≠ [] →
    (∃ e, nextSegment fuel [] ts = sound (.error e) ∧ segmentLength ts = .error e) ∨
    ∃ cut n, nextSegment fuel [] ts = sound (.ok cut) ∧ segmentLength ts = .ok n ∧
      cut.1.length = n ∧ cut.1 ≠ [] ∧ cut.1 ++ cut.2 = ts
  branch : ∀ word body, ts = word :: body →
    (∃ e, splitBranch fuel [] ts = sound (.error e) ∧ branchLengths word body = .error e) ∨
    ∃ parts lengths, splitBranch fuel [] ts = sound (.ok parts) ∧ branchLengths word body = .ok lengths ∧
      parts.length = lengths.total ∧ 1 ≤ parts.length ∧ parts.length ≤ ts.length
  loop : ∀ word body, ts = word :: body →
    (∃ e, splitLoop fuel [] ts = sound (.error e) ∧ loopLengths word body = .error e) ∨
    ∃ parts lengths, splitLoop fuel [] ts = sound (.ok parts) ∧ loopLengths word body = .ok lengths ∧
      parts.length = lengths.total ∧ 1 ≤ parts.length ∧ parts.length ≤ ts.length
  search : ∀ kinds, topLevel fuel [] (oneOf kinds) ts = sound (.ok ((splitAt? kinds ts).map (·.before.length)))
  tree : tree fuel [] ts = sound (parse ts)
  declaration : ∀ word d left, declaration word ts = .ok (d, left) → left <:+ ts ∧ left.length < ts.length
  rounds : rounds fuel (ts.length + 1) [] ts = sound (hoist ts)
  fragment : readTokens true fuel ts = sound (parseFragment ts)
  program : readTokens false fuel ts = sound (parseProgram ts)

/-- Reading comes to an end and stays in bounds on every token list. A descent of three calls for each token is deep
enough for it. -/
theorem reading_in_bounds (enough : 3 * ts.length + 3 ≤ fuel) : InBounds fuel ts where
  statement _ := by
    apply sound_map_cases ((agrees fuel).statement [] ts (enough_for enough (Nat.le_refl _)) (nothing_active _))
    intro n measured
    obtain ⟨filled, whole⟩ := cutSegment_ok (by rw [cutSegment, measured]; rfl)
    exact ⟨by rw [List.length_take, Nat.min_eq_left (segmentLength_le measured).2], filled, whole⟩
  branch word body same := by
    subst same
    apply sound_map_cases ((agrees fuel).branch [] word body (enough_for enough (Nat.le_refl _)) (nothing_active _))
    intro lengths measured
    have within := branchLengths_within measured
    rw [branchParts_length within]
    exact ⟨rfl, within.total⟩
  loop word body same := by
    subst same
    apply sound_map_cases ((agrees fuel).loop [] word body (enough_for enough (Nat.le_refl _)) (nothing_active _))
    intro lengths measured
    have within := loopLengths_within measured
    rw [loopParts_length within]
    exact ⟨rfl, within.total⟩
  search kinds := topLevel_eq (Nat.le_of_lt (enough_for enough (Nat.le_refl _))) (nothing_active _) fun _ _ _ => rfl
  tree := tree_eq enough (nothing_active _)
  declaration _ _ _ := declaration_shortens
  rounds := rounds_eq_hoist enough
  fragment := readTokens_eq true enough
  program := readTokens_eq false enough

/-- An `if` with a `while` as its alternative, a number that is none and a parenthesis too many. No text is scanned as
these tokens. -/
def sampleLoose : List Token :=
  [⟨.ifWord, "if", {}⟩, ⟨.ident, "x", {}⟩, ⟨.ident, "x", {}⟩, ⟨.elseWord, "else", {}⟩, ⟨.whileWord, "while", {}⟩,
    ⟨.number, "?", {}⟩, ⟨.openBrace, "\x7b", {}⟩, ⟨.closeBrace, "\x7d", {}⟩, ⟨.closeParen, ")", {}⟩]

theorem sampleLoose_in_bounds : 3 * sampleLoose.length + 3 ≤ 30 ∧
    (∃ cut, nextSegment 30 [] sampleLoose = sound (.ok cut) ∧ cut.1.length = 8 ∧ cut.1 ++ cut.2 = sampleLoose) ∧
    ∃ e, readTokens false 30 sampleLoose = sound (.error e) ∧ e.fault = .badNumber "?" := by
  have enough : 3 * sampleLoose.length + 3 ≤ 30 := by decide
  have bounds := reading_in_bounds enough
  have measured : segmentLength sampleLoose = .ok 8 := by decide +kernel
  have refused : ((parseProgram sampleLoose).map fun _ => ()) =
      .error (Token.fault ⟨.number, "?", {}⟩ (.badNumber "?")) := by decide +kernel
  refine ⟨enough, ?_, ?_⟩
  · rcases bounds.statement (by simp [sampleLoose]) with ⟨e, _, failed⟩ | ⟨cut, n, found, length, taken, _, whole⟩
    · cases measured.symm.trans failed
    · cases measured.symm.trans length
      exact ⟨cut, found, taken, whole⟩
  · have program := bounds.program
    cases read : parseProgram sampleLoose with
    | error e =>
      rw [read] at program refused
      cases refused
      exact ⟨_, program, rfl⟩
    | ok found =>
      rw [read] at refused
      cases refused

end Programs

end Scriptlet.Proofs.GuardedReader
