import Scriptlet.Proofs.SegmentBounds
import Scriptlet.Proofs.TreePlaces
import Mathlib.Control.Monad.Basic

/-! Which token an error blames. Every error about tokens is about one of them: each place that reads makes sure that
there is something to read before it goes on, so that the errors for a reading of nothing are out of reach. An error
about a number is about one that cannot be read. -/

namespace Scriptlet.Proofs.TokenBlame
open Grammar GrammarSegments GrammarCuts GrammarReading ConcreteSyntax SegmentBounds
open SessionDeclaration TreePlaces

/-- Faults other than the one for a reading of nothing and the one for a declaration inside a statement. -/
def Common (fault : ParseFault) : Prop := fault ≠ .missingExpression ∧ fault ≠ .strayFunction

/-- The token is what the error is about. A number is blamed as such only if it cannot be read. -/
def IsAbout (t : Token) (e : ParseError) : Prop :=
  e.culprit = some t ∧ ∀ literal, e.fault = .badNumber literal → t.kind = .number ∧ Number.parse? t.lexeme = none

/-- The error is about one of the tokens. -/
def Names (ts : List Token) (e : ParseError) : Prop := ∃ t ∈ ts, IsAbout t e ∧ Common e.fault

/-- The error is about one of the tokens, which is the word for a declaration if the error says so. -/
def Blames (ts : List Token) (e : ParseError) : Prop :=
  Names ts e ∨ ∃ t ∈ ts, t.kind = .funcWord ∧ e = t.fault .strayFunction

variable {ts us rest : List Token} {t : Token} {e : ParseError}

theorem Names.mono (names : Names ts e) (within : ts ⊆ us) : Names us e := by
  obtain ⟨t, member, shows, common⟩ := names
  exact ⟨t, within member, shows, common⟩

/-- Faults that any token may show. -/
def isPlain : ParseFault → Bool
  | .missingExpression | .strayFunction | .badNumber _ => false
  | _ => true

private theorem names_fault {fault : ParseFault} (member : t ∈ ts) (plain : isPlain fault = true) :
    Names ts (t.fault fault) := by
  refine ⟨t, member, ⟨rfl, ?_⟩, ?_, ?_⟩
  · rintro literal rfl
    cases plain
  · rintro rfl
    cases plain
  · rintro rfl
    cases plain

theorem Blames.mono (blames : Blames ts e) (within : ts ⊆ us) : Blames us e := by
  rcases blames with names | ⟨t, member, word, same⟩
  · exact Or.inl (names.mono within)
  · exact Or.inr ⟨t, within member, word, same⟩

theorem Blames.behind (blames : Blames ts e) : Blames (t :: ts) e := blames.mono (List.subset_cons_self t ts)

theorem Blames.names (blames : Blames ts e) (bare : ∀ t ∈ ts, t.kind ≠ .funcWord) : Names ts e := by
  rcases blames with names | ⟨t, member, word, _⟩
  · exact names
  · exact absurd word (bare t member)

private theorem blames_fault {fault : ParseFault} (member : t ∈ ts) (plain : isPlain fault = true) :
    Blames ts (t.fault fault) :=
  Or.inl (names_fault member plain)

private theorem blames_front {fault : ParseFault} (plain : isPlain fault = true) : Blames (t :: rest) (t.fault fault) :=
  blames_fault List.mem_cons_self plain

section Outcomes
variable {α β : Type}

theorem map_eq_error {outcome : Except ParseError α} {f : α → β} (failed : outcome.map f = .error e) :
    outcome = .error e := by
  cases outcome with
  | error other => exact congrArg _ (Except.error.inj failed)
  | ok found => cases failed

private theorem bind_eq_error {outcome : Except ParseError α} {next : α → Except ParseError β}
    (failed : (outcome >>= next) = .error e) :
    outcome = .error e ∨ ∃ found, outcome = .ok found ∧ next found = .error e := by
  cases outcome with
  | error other => exact Or.inl (congrArg _ (Except.error.inj failed))
  | ok found => exact Or.inr ⟨found, rfl, failed⟩

end Outcomes

private theorem blockLength_blames (failed : blockLength t rest = .error e) : Blames (t :: rest) e := by
  rw [blockLength] at failed
  split at failed
  · cases failed
  · cases failed
    exact blames_front rfl

private theorem stepOver_blames {started : Bool} {parens : Nat}
    (branch : branchLengths t rest = .error e → Blames (t :: rest) e)
    (loop : loopLengths t rest = .error e → Blames (t :: rest) e)
    (failed : stepOver started parens t rest = .error e) : Blames (t :: rest) e := by
  rw [stepOver] at failed
  split at failed
  · exact branch (map_eq_error failed)
  · exact loop (map_eq_error failed)
  · exact blockLength_blames (map_eq_error failed)
  · cases failed
  · split at failed
    · split at failed
      · cases failed
      · cases failed
        exact blames_front rfl
    · cases failed
  · split at failed
    · split at failed
      · cases failed
      · cases failed
        exact blames_front rfl
    · cases failed
  · cases failed
    exact blames_front rfl
  next word =>
    cases failed
    exact Or.inr ⟨t, List.mem_cons_self, word, rfl⟩
  · cases failed
    exact blames_front rfl
  · cases failed
    exact blames_front rfl
  · cases failed

mutual

theorem segmentLength_blames {ts : List Token} {e : ParseError} (filled : ts ≠ [])
    (failed : segmentLength ts = .error e) :
    Blames ts e := by
  match ts with
  | [] => exact absurd rfl filled
  | t :: rest =>
    by_cases branch : t.kind = .ifWord
    · rw [segment_branch_word branch] at failed
      exact branchLengths_blames (map_eq_error failed)
    by_cases loop : t.kind = .whileWord
    · rw [segment_loop_word loop] at failed
      exact loopLengths_blames (map_eq_error failed)
    by_cases ret : t.kind = .returnWord
    · rw [segmentLength] at failed
      simp only [ret] at failed
      split at failed
      · cases failed
      · exact (scanLength_blames (map_eq_error failed)).behind
    · rw [segment_scan branch loop ret] at failed
      exact scanLength_blames failed
termination_by 3 * ts.length + 2
decreasing_by all_goals simp +arith

theorem scanLength_blames {started : Bool} {parens : Nat} {ts : List Token} {e : ParseError}
    (failed : scanLength started parens ts = .error e) : Blames ts e := by
  match ts with
  | [] =>
    rw [scanLength] at failed
    cases failed
  | t :: rest =>
    rw [scan_step] at failed
    rcases bind_eq_error failed with failed | ⟨step, stepped, failed⟩
    · exact stepOver_blames branchLengths_blames loopLengths_blames failed
    · cases step with
      | none => cases failed
      | some passed =>
        rw [afterStep, onward] at failed
        split at failed
        · cases failed
        · exact ((scanLength_blames (map_eq_error failed)).mono (List.drop_subset _ _)).behind
termination_by 3 * ts.length + 1
decreasing_by all_goals subst_vars; simp only [List.length_cons, List.length_drop]; omega

theorem branchLengths_blames {word : Token} {body : List Token} {e : ParseError}
    (failed : branchLengths word body = .error e) : Blames (word :: body) e := by
  rw [branchLengths] at failed
  split at failed
  · cases failed
    exact blames_front rfl
  next filled =>
    rcases bind_eq_error failed with failed | ⟨condition, first, failed⟩
    · exact (segmentLength_blames (by simpa using filled) failed).behind
    dsimp only at failed
    split at failed
    · cases failed
      exact blames_front rfl
    next more =>
      rcases bind_eq_error failed with failed | ⟨action, second, failed⟩
      · exact ((segmentLength_blames (by simpa using more) failed).mono (List.drop_subset _ _)).behind
      split at failed
      · cases failed
      next next there =>
        split at failed
        · split at failed
          · cases failed
            exact blames_fault (List.mem_cons_of_mem _ (List.mem_of_getElem? there)) rfl
          next last =>
            rcases bind_eq_error failed with failed | ⟨otherwise, third, failed⟩
            · exact ((segmentLength_blames (by simpa using last) failed).mono (List.drop_subset _ _)).behind
            · cases failed
        · cases failed
termination_by 3 * body.length + 3
decreasing_by
  all_goals
    try rw [List.length_drop]
    omega

theorem loopLengths_blames {word : Token} {body : List Token} {e : ParseError}
    (failed : loopLengths word body = .error e) : Blames (word :: body) e := by
  rw [loopLengths] at failed
  split at failed
  · cases failed
    exact blames_front rfl
  next filled =>
    rcases bind_eq_error failed with failed | ⟨condition, first, failed⟩
    · exact (segmentLength_blames (by simpa using filled) failed).behind
    dsimp only at failed
    split at failed
    · cases failed
      exact blames_front rfl
    next more =>
      rcases bind_eq_error failed with failed | ⟨action, second, failed⟩
      · exact ((segmentLength_blames (by simpa using more) failed).mono (List.drop_subset _ _)).behind
      · cases failed
termination_by 3 * body.length + 3
decreasing_by
  all_goals
    try rw [List.length_drop]
    omega

end

private theorem statements_blames (stopped : (statements ts).trailing = some e) : Blames ts e := by
  fun_induction statements ts with
  | case1 => cases stopped
  | case2 t rest other failed =>
    cases stopped
    exact segmentLength_blames (List.cons_ne_nil t rest) failed
  | case3 t rest n _ ih => exact ((ih stopped).mono (List.drop_subset _ _)).behind

private theorem statements_filled {piece : List Token} (member : piece ∈ (statements ts).pieces) : piece ≠ [] := by
  fun_induction statements ts with
  | case1 => cases member
  | case2 => cases member
  | case3 t rest n measured ih =>
    rcases List.mem_cons.mp member with rfl | later
    · have positive := (segmentLength_le measured).1
      simp only [ne_eq, List.take_eq_nil_iff, reduceCtorEq, or_false]
      omega
    · exact ih later

private theorem statements_within {piece : List Token} (member : piece ∈ (statements ts).pieces) : piece ⊆ ts := by
  fun_induction statements ts with
  | case1 => cases member
  | case2 => cases member
  | case3 t rest n measured ih =>
    rcases List.mem_cons.mp member with rfl | later
    · exact List.take_subset _ _
    · have inside := List.Subset.trans (ih later) (List.drop_subset _ _)
      exact List.Subset.trans inside (List.subset_cons_self t rest)

section Arguments
variable {last : Token} {depth : Int} {held piece : List Token}

private theorem cutArguments_blames (stopped : (cutArguments last depth held ts).trailing = some e) :
    Blames (last :: ts) e := by
  induction ts generalizing depth held with
  | nil =>
    rw [cutArguments] at stopped
    split at stopped
    · cases stopped
      exact blames_front rfl
    · cases stopped
  | cons t rest ih =>
    have wider : last :: rest ⊆ last :: t :: rest := List.cons_subset_cons last (List.subset_cons_self t rest)
    rw [cutArguments] at stopped
    split at stopped
    · split at stopped
      · cases stopped
        exact blames_fault (List.mem_cons_of_mem _ List.mem_cons_self) rfl
      · exact (ih stopped).mono wider
    · exact (ih stopped).mono wider

private theorem cutArguments_pieces (member : piece ∈ (cutArguments last depth held ts).pieces) :
    piece ≠ [] ∧ piece ⊆ held ++ ts := by
  induction ts generalizing depth held with
  | nil =>
    rw [cutArguments] at member
    split at member
    · cases member
    next filled =>
      obtain rfl := List.mem_singleton.mp member
      exact ⟨by simpa using filled, by simp⟩
  | cons t rest ih =>
    rw [cutArguments] at member
    split at member
    · split at member
      · cases member
      next filled =>
        rcases List.mem_cons.mp member with rfl | later
        · exact ⟨by simpa using filled, by simp⟩
        · obtain ⟨some, within⟩ := ih later
          exact ⟨some, List.Subset.trans within fun other there => by simp_all⟩
    · obtain ⟨some, within⟩ := ih member
      refine ⟨some, List.Subset.trans within fun other there => ?_⟩
      simpa [or_left_comm] using there

private theorem arguments_blames {paren : Token} (stopped : (arguments paren ts).trailing = some e) :
    Blames (paren :: ts) e := by
  rw [arguments] at stopped
  split at stopped
  · cases stopped
  · exact cutArguments_blames stopped

private theorem arguments_pieces {paren : Token} (member : piece ∈ (arguments paren ts).pieces) :
    piece ≠ [] ∧ piece ⊆ ts := by
  rw [arguments] at member
  split at member
  · cases member
  · exact cutArguments_pieces member

end Arguments

/-- What a rule may answer: an error about one of the tokens, or a shape without empty parts. -/
def SoundAnswer (ts : List Token) : Except ParseError (Option Shape) → Prop
  | .error e => Blames ts e
  | .ok none => True
  | .ok (some found) => ∀ part ∈ found.parts, part ≠ []

private theorem sound_fault {fault : ParseFault} (member : t ∈ ts) (plain : isPlain fault = true) :
    SoundAnswer ts (.error (t.fault fault)) :=
  blames_fault member plain

private theorem sound_front {fault : ParseFault} (plain : isPlain fault = true) :
    SoundAnswer (t :: rest) (.error (t.fault fault)) :=
  blames_front plain

private theorem sound_leaf (node : Node) :
    SoundAnswer ts (.ok (some (.leaf node))) := by simp [SoundAnswer, Shape.parts]

private theorem groupRule_sound (t : Token) (rest : List Token) : SoundAnswer (t :: rest) (groupRule t rest) := by
  unfold groupRule
  split
  next opens =>
    split
    · exact sound_front rfl
    next n closed =>
      split
      · trivial
      next whole =>
        split
        · exact sound_front rfl
        next longer =>
          obtain ⟨inner, last, rfl, _⟩ :=
            enclosed_of_closing (by simp) opens (Decidable.not_not.mp whole ▸ closed)
          have filled : inner ≠ [] := by
            rintro rfl
            exact longer (Decidable.not_not.mp whole)
          simpa [SoundAnswer, Shape.parts] using filled
  · trivial

private theorem blockRule_sound (t : Token) (rest : List Token) : SoundAnswer (t :: rest) (blockRule t rest) := by
  unfold blockRule
  split
  · split
    next failed =>
      exact blockLength_blames failed
    · split
      · trivial
      · exact fun part => statements_filled
  · trivial

private theorem returnRule_sound (t : Token) (rest : List Token) : SoundAnswer (t :: rest) (returnRule t rest) := by
  unfold returnRule
  split
  · split
    · exact sound_leaf _
    next filled =>
      simpa [SoundAnswer, Shape.parts] using filled
  · trivial

private theorem getD_mem (n : Nat) : rest[n]?.getD t ∈ t :: rest := by
  cases there : rest[n]? with
  | none => exact List.mem_cons_self
  | some found => exact List.mem_cons_of_mem _ (List.mem_of_getElem? there)

private theorem branchRule_sound (t : Token) (rest : List Token) : SoundAnswer (t :: rest) (branchRule t rest) := by
  unfold branchRule
  split
  · split
    next failed =>
      exact branchLengths_blames failed
    next parts measured =>
      have within := branchLengths_within measured
      split
      · exact sound_fault (getD_mem _) rfl
      · intro part member
        rw [← List.length_pos_iff]
        simp only [Shape.parts, List.mem_cons, Option.mem_toList, Option.map_eq_some_iff] at member
        have condition := within.condition
        have action := within.action
        have both := within.both
        rcases member with rfl | rfl | ⟨n, given, rfl⟩
        · rw [List.length_take]
          omega
        · rw [List.length_take, List.length_drop]
          omega
        · have last := within.otherwise n given
          rw [List.length_drop, List.length_drop]
          omega
  · trivial

private theorem loopRule_sound (t : Token) (rest : List Token) : SoundAnswer (t :: rest) (loopRule t rest) := by
  unfold loopRule
  split
  · split
    next failed =>
      exact loopLengths_blames failed
    next parts measured =>
      have within := loopLengths_within measured
      split
      · exact sound_fault (getD_mem _) rfl
      · intro part member
        rw [← List.length_pos_iff]
        simp only [Shape.parts, List.mem_cons, List.not_mem_nil, or_false] at member
        have condition := within.condition
        have action := within.action
        have both := within.both
        rcases member with rfl | rfl
        · rw [List.length_take]
          omega
        · rw [List.length_drop]
          omega
  · trivial

private theorem negationRule_sound (t : Token) (rest : List Token) : SoundAnswer (t :: rest) (negationRule t rest) := by
  unfold negationRule
  split
  · split
    · exact sound_front rfl
    next filled =>
      simpa [SoundAnswer, Shape.parts] using filled
  · trivial

private theorem leafRule_sound (t : Token) (rest : List Token) : SoundAnswer (t :: rest) (leafRule t rest) := by
  unfold leafRule
  split
  · dsimp only
    split
    · exact sound_leaf _
    next number =>
      split
      · exact sound_leaf _
      next unread =>
        exact Or.inl ⟨t, List.mem_cons_self, ⟨rfl, fun _ _ => ⟨number, unread⟩⟩, by simp [Common, Token.fault]⟩
    · exact sound_leaf _
    · exact sound_leaf _
    · exact sound_leaf _
    · exact sound_front rfl
  · trivial

private theorem operator_mem {split : Split} (whole : ts = split.before ++ split.operator :: split.after) :
    split.operator ∈ ts := by
  rw [whole]
  exact List.mem_append_right _ List.mem_cons_self

private theorem assignmentRule_sound (t : Token) (rest : List Token) :
    SoundAnswer (t :: rest) (assignmentRule t rest) := by
  unfold assignmentRule
  split
  · trivial
  next split there =>
    have member := operator_mem (splitAt_cut there).1
    split
    · exact sound_fault member rfl
    · split
      · exact sound_fault member rfl
      next filled =>
        split <;> simpa [SoundAnswer, Shape.parts] using filled

private theorem binaryShape_sound {split : Split} {function : String} (member : split.operator ∈ ts) :
    SoundAnswer ts (binaryShape function split) := by
  unfold binaryShape
  split
  · exact sound_fault member rfl
  next left =>
    split
    · exact sound_fault member rfl
    next right =>
      simpa [SoundAnswer, Shape.parts] using And.intro left right

private theorem operatorRule_sound (kinds : List TokenKind) (t : Token) (rest : List Token) :
    SoundAnswer (t :: rest) (operatorRule kinds t rest) := by
  unfold operatorRule
  split
  · trivial
  next split there =>
    exact binaryShape_sound (operator_mem (splitAt_cut there).1)

private theorem additiveRule_sound (t : Token) (rest : List Token) : SoundAnswer (t :: rest) (additiveRule t rest) := by
  unfold additiveRule
  dsimp only
  split
  · trivial
  next split there =>
    have whole := (splitOutside_cut there).1
    have binary := @binaryShape_sound _ split (operatorFunction split.operator.kind) (operator_mem whole)
    split
    next next follows =>
      have member : next ∈ t :: rest := by
        rw [whole]
        exact List.mem_append_right _ (List.mem_cons_of_mem _ (List.mem_of_mem_head? follows))
      split
      · exact sound_fault member rfl
      · exact binary
    · exact binary

private theorem notRule_sound (t : Token) (rest : List Token) : SoundAnswer (t :: rest) (notRule t rest) := by
  unfold notRule
  split
  · trivial
  · split
    · exact sound_front rfl
    · split
      · exact sound_front rfl
      next filled =>
        simpa [SoundAnswer, Shape.parts] using filled

private theorem callRule_sound (t : Token) (rest : List Token) : SoundAnswer (t :: rest) (callRule t rest) := by
  unfold callRule
  split
  · trivial
  next last front ends =>
    have member : last ∈ t :: rest := by
      rw [← List.mem_reverse, ends]
      exact List.mem_cons_self
    split
    · split
      · exact sound_fault member rfl
      · dsimp only
        split
        · exact sound_front rfl
        next called =>
          intro part member
          rcases List.mem_cons.mp member with rfl | argument
          · simpa using called
          · exact (arguments_pieces argument).1
    · trivial

private theorem memberRule_sound (t : Token) (rest : List Token) : SoundAnswer (t :: rest) (memberRule t rest) := by
  unfold memberRule
  split
  · split
    next facts =>
      simpa [SoundAnswer, Shape.parts] using facts.2.2
    · trivial
  · trivial

private theorem rules_sound : ∀ rule ∈ rules, ∀ t rest, SoundAnswer (t :: rest) (rule t rest) := by
  intro rule member
  simp only [rules, List.mem_cons, List.not_mem_nil, or_false] at member
  rcases member with rfl | rfl | rfl | rfl | rfl | rfl | rfl | rfl | rfl | rfl | rfl | rfl | rfl |
    rfl | rfl | rfl
  · exact groupRule_sound
  · exact blockRule_sound
  · exact returnRule_sound
  · exact branchRule_sound
  · exact loopRule_sound
  · exact negationRule_sound
  · exact leafRule_sound
  · exact assignmentRule_sound
  · exact operatorRule_sound _
  · exact additiveRule_sound
  · exact operatorRule_sound _
  · exact operatorRule_sound _
  · exact operatorRule_sound _
  · exact notRule_sound
  · exact callRule_sound
  · exact memberRule_sound

private theorem firstShape_sound {candidates : List Rule}
    (sound : ∀ rule ∈ candidates, ∀ t rest, SoundAnswer (t :: rest) (rule t rest))
    (t : Token) (rest : List Token) : SoundAnswer (t :: rest) ((firstShape t rest candidates).map some) := by
  induction candidates with
  | nil => exact sound_front rfl
  | cons rule others ih =>
    have here := sound rule List.mem_cons_self t rest
    rw [firstShape]
    split
    next failed =>
      rwa [failed] at here
    next found =>
      rwa [found] at here
    · exact ih fun rule member => sound rule (List.mem_cons_of_mem _ member)

private theorem shape_blames (filled : ts ≠ []) (failed : shape ts = .error e) : Blames ts e := by
  cases ts with
  | nil => exact absurd rfl filled
  | cons t rest =>
    have sound := firstShape_sound rules_sound t rest
    rw [shape] at failed
    rwa [failed] at sound

private theorem shape_filled {found : Shape} (shaped : shape ts = .ok found) : ∀ part ∈ found.parts, part ≠ [] := by
  cases ts with
  | nil => cases shaped
  | cons t rest =>
    have sound := firstShape_sound rules_sound t rest
    rw [shape] at shaped
    rwa [shaped] at sound

/-- What stopped the cutting of a shape into parts. -/
def trailing? : Shape → Option ParseError
  | .block _ statements => statements.trailing
  | .call _ _ arguments => arguments.trailing
  | _ => none

private theorem parts_within {found : Shape} (cut : Cut found ts) {part : List Token} (member : part ∈ found.parts) :
    part ⊆ ts := by
  cases cut with
  | leaf => cases member
  | stop => cases member
  | block => exact fun t there => by simp [statements_within member there]
  | call =>
    rcases List.mem_cons.mp member with rfl | argument
    · simp
    · exact fun t there => by simp [(arguments_pieces argument).2 there]
  | _ =>
    simp only [Shape.parts, Option.toList, List.mem_cons, List.not_mem_nil, or_false] at member
    rcases member with rfl | rfl | rfl <;> intro t there <;> simp [there]

private theorem trailing_blames {found : Shape} (cut : Cut found ts) (stopped : trailing? found = some e) :
    Blames ts e := by
  cases cut with
  | block => exact (statements_blames stopped).mono fun t there => by simp [there]
  | call =>
    apply (arguments_blames stopped).mono
    intro t there
    rcases List.mem_cons.mp there with rfl | inner <;> simp [*]
  | _ => cases stopped

private theorem pieces_error {pieces : Pieces} (failed : (pieces.build fun part _ => parse part) = .error e) :
    (∃ part ∈ pieces.pieces, parse part = .error e) ∨ pieces.trailing = some e := by
  obtain ⟨list, trailing⟩ := pieces
  induction list with
  | nil =>
    cases trailing with
    | none => cases failed
    | some other => exact Or.inr (congrArg _ (Except.error.inj failed))
  | cons part others ih =>
    have rest := build_push part ⟨others, trailing⟩
    rw [Pieces.push] at rest
    rw [rest] at failed
    rcases bind_eq_error failed with failed | ⟨node, _, failed⟩
    · exact Or.inl ⟨part, List.mem_cons_self, failed⟩
    · rcases ih (map_eq_error failed) with ⟨other, member, failed⟩ | stopped
      · exact Or.inl ⟨other, List.mem_cons_of_mem _ member, failed⟩
      · exact Or.inr stopped

private theorem build_error {found : Shape} (failed : (found.build fun part _ => parse part) = .error e) :
    (∃ part ∈ found.parts, parse part = .error e) ∨ trailing? found = some e := by
  cases found with
  | leaf => cases failed
  | group inner => exact Or.inl ⟨inner, by simp [Shape.parts], failed⟩
  | block position statements =>
    rcases bind_eq_error failed with failed | ⟨_, _, ⟨⟩⟩
    exact pieces_error failed
  | ret position value =>
    rcases bind_eq_error failed with failed | ⟨_, _, ⟨⟩⟩
    exact Or.inl ⟨value, by simp [Shape.parts], failed⟩
  | branch position condition action otherwise =>
    rcases bind_eq_error failed with failed | ⟨_, _, failed⟩
    · exact Or.inl ⟨condition, by simp [Shape.parts], failed⟩
    rcases bind_eq_error failed with failed | ⟨_, _, failed⟩
    · exact Or.inl ⟨action, by simp [Shape.parts], failed⟩
    cases otherwise with
    | none => cases failed
    | some last =>
      rcases bind_eq_error failed with failed | ⟨_, _, ⟨⟩⟩
      exact Or.inl ⟨last, by simp [Shape.parts], failed⟩
  | loop position condition action =>
    rcases bind_eq_error failed with failed | ⟨_, _, failed⟩
    · exact Or.inl ⟨condition, by simp [Shape.parts], failed⟩
    rcases bind_eq_error failed with failed | ⟨_, _, ⟨⟩⟩
    exact Or.inl ⟨action, by simp [Shape.parts], failed⟩
  | unary operator function operand =>
    rcases bind_eq_error failed with failed | ⟨_, _, ⟨⟩⟩
    exact Or.inl ⟨operand, by simp [Shape.parts], failed⟩
  | binary operator function left right =>
    rcases bind_eq_error failed with failed | ⟨_, _, failed⟩
    · exact Or.inl ⟨left, by simp [Shape.parts], failed⟩
    rcases bind_eq_error failed with failed | ⟨_, _, ⟨⟩⟩
    exact Or.inl ⟨right, by simp [Shape.parts], failed⟩
  | assign name value =>
    rcases bind_eq_error failed with failed | ⟨_, _, ⟨⟩⟩
    exact Or.inl ⟨value, by simp [Shape.parts], failed⟩
  | update name operator function value =>
    rcases bind_eq_error failed with failed | ⟨_, _, ⟨⟩⟩
    exact Or.inl ⟨value, by simp [Shape.parts], failed⟩
  | call position callee arguments =>
    rcases bind_eq_error failed with failed | ⟨_, _, failed⟩
    · exact Or.inl ⟨callee, by simp [Shape.parts], failed⟩
    rcases bind_eq_error failed with failed | ⟨_, _, ⟨⟩⟩
    rcases pieces_error failed with ⟨part, member, failed⟩ | stopped
    · exact Or.inl ⟨part, by simp [Shape.parts, member], failed⟩
    · exact Or.inr stopped
  | member dot base name =>
    rcases bind_eq_error failed with failed | ⟨_, _, ⟨⟩⟩
    exact Or.inl ⟨base, by simp [Shape.parts], failed⟩

theorem parse_blames {ts : List Token} (filled : ts ≠ []) (failed : parse ts = .error e) : Blames ts e := by
  cases shaped : shape ts with
  | error other =>
    rw [parse_of_no_shape shaped] at failed
    cases failed
    exact shape_blames filled shaped
  | ok found =>
    rw [parse_of_shape shaped] at failed
    have cut := cut_of_shape shaped
    rcases build_error failed with ⟨part, member, failed⟩ | stopped
    · have shorter := length_lt_of_mem_parts shaped member
      exact (parse_blames (shape_filled shaped part member) failed).mono (parts_within cut member)
    · exact trailing_blames cut stopped
termination_by ts.length

private theorem parseStatements_blames (failed : parseStatements ts = .error e) : Blames ts e := by
  rcases pieces_error failed with ⟨part, member, failed⟩ | stopped
  · exact (parse_blames (statements_filled member) failed).mono (statements_within member)
  · exact statements_blames stopped

section Programs
variable {word : Token} {name : String} {functions : List Definition} {left : List Token}

theorem bare_of_hoist (hoisted : hoist ts = .ok (functions, left)) : ∀ t ∈ left, t.kind ≠ .funcWord := by
  induction ts generalizing functions left with
  | nil =>
    cases hoisted
    simp
  | cons t ts ih =>
    obtain ⟨⟨later, middle⟩, found, hoisted⟩ := bind_eq_ok hoisted
    dsimp only at hoisted
    split at hoisted
    · obtain ⟨⟨d, after⟩, declared, done⟩ := bind_eq_ok hoisted
      cases done
      obtain ⟨taken, rfl, _⟩ := declaration_cut declared
      exact (List.forall_mem_append.mp (ih found)).2
    next stays =>
      cases hoisted
      exact List.forall_mem_cons.mpr ⟨stays, ih found⟩

private theorem parameters_names (failed : parameters word name ts = .error e) : Names (word :: ts) e := by
  fun_induction parameters word name ts with
  | case1 =>
    cases failed
    exact names_fault List.mem_cons_self rfl
  | case2 =>
    cases failed
    exact names_fault List.mem_cons_self rfl
  | case3 =>
    cases failed
    exact names_fault (by simp) rfl
  | case4 =>
    cases failed
    exact names_fault (by simp) rfl
  | case5 param separator rest _ _ ih =>
    apply (ih (map_eq_error failed)).mono
    intro t member
    rcases List.mem_cons.mp member with rfl | later <;> simp [*]
  | case6 => cases failed
  | case7 =>
    cases failed
    exact names_fault (by simp) rfl

private theorem parameterList_names (failed : parameterList word name ts = .error e) : Names (word :: ts) e := by
  cases ts with
  | nil => exact parameters_names failed
  | cons first rest =>
    rw [parameterList] at failed
    split at failed
    · cases failed
    · exact parameters_names failed

/-- The input ends before the head of a declaration does. -/
def EndsEarly (e : ParseError) : Prop := e = faultAt [] .missingFunctionName ∨ e = faultAt [] .missingParameterList

theorem EndsEarly.ne_strayFunction (ends : EndsEarly e) : e.fault ≠ .strayFunction := by
  rcases ends with rfl | rfl <;> simp [faultAt]

private theorem declaration_names (bare : ∀ t ∈ ts, t.kind ≠ .funcWord) (failed : declaration word ts = .error e) :
    EndsEarly e ∨ Names (word :: ts) e := by
  unfold declaration at failed
  split at failed
  · cases failed
    exact Or.inl (Or.inl rfl)
  next name behind =>
    split at failed
    · cases failed
      exact Or.inr (names_fault (by simp) rfl)
    split at failed
    · cases failed
      exact Or.inl (Or.inr rfl)
    next paren behind =>
      split at failed
      · cases failed
        exact Or.inr (names_fault (by simp) rfl)
      refine Or.inr ?_
      rcases bind_eq_error failed with unlisted | ⟨⟨params, body⟩, listed, later⟩
      · exact (parameterList_names unlisted).mono fun t member => by
          rcases List.mem_cons.mp member with rfl | inside <;> simp [*]
      clear failed
      obtain ⟨inner, close, rfl, _⟩ := parameterList_cut listed
      have within : body ⊆ word :: name :: paren :: (inner ++ close :: body) := fun t member => by simp [member]
      have bareBody : ∀ t ∈ body, t.kind ≠ .funcWord := fun t member => bare t (by simp [member])
      dsimp only at later
      split at later
      · cases later
        exact names_fault List.mem_cons_self rfl
      next filled =>
        have filled : body ≠ [] := by simpa using filled
        rcases bind_eq_error later with later | ⟨length, measured, later⟩
        · exact ((segmentLength_blames filled later).names bareBody).mono within
        have bounds := segmentLength_le measured
        rcases bind_eq_error later with later | ⟨_, _, ⟨⟩⟩
        have some : body.take length ≠ [] := by
          rw [← List.length_pos_iff, List.length_take]
          omega
        exact (((parse_blames some later).mono (List.take_subset _ _)).names bareBody).mono within

private theorem hoist_names (failed : hoist ts = .error e) : EndsEarly e ∨ Names ts e := by
  induction ts with
  | nil => cases failed
  | cons t ts ih =>
    rcases bind_eq_error failed with failed | ⟨⟨functions, left⟩, hoisted, failed⟩
    · exact (ih failed).imp_right fun names => names.mono (List.subset_cons_self t ts)
    dsimp only at failed
    split at failed
    · rcases bind_eq_error failed with failed | ⟨_, _, ⟨⟩⟩
      have within : t :: left ⊆ t :: ts := List.cons_subset_cons t (hoist_subset hoisted)
      exact (declaration_names (bare_of_hoist hoisted) failed).imp_right fun names => names.mono within
    · cases failed

/-- What is left when the declarations are out holds no word for one. -/
theorem statements_names (hoisted : hoist ts = .ok (functions, left)) (failed : parseStatements left = .error e) :
    Names ts e :=
  ((parseStatements_blames failed).names (bare_of_hoist hoisted)).mono (hoist_subset hoisted)

theorem parseFragment_names (failed : parseFragment ts = .error e) : EndsEarly e ∨ Names ts e := by
  rcases bind_eq_error failed with failed | ⟨⟨functions, left⟩, hoisted, failed⟩
  · exact hoist_names failed
  cases left with
  | nil => cases failed
  | cons first rest =>
    rcases bind_eq_error failed with failed | ⟨_, _, ⟨⟩⟩
    exact Or.inr (statements_names hoisted failed)

theorem parseProgram_names (failed : parseProgram ts = .error e) :
    e = ⟨.emptyProgram, none⟩ ∨ EndsEarly e ∨ Names ts e := by
  rcases bind_eq_error failed with failed | ⟨⟨functions, left⟩, hoisted, failed⟩
  · exact Or.inr (hoist_names failed)
  cases left with
  | nil => exact Or.inl (Except.error.inj failed).symm
  | cons first rest =>
    rcases bind_eq_error failed with failed | ⟨_, _, ⟨⟩⟩
    exact Or.inr (Or.inr (statements_names hoisted failed))

end Programs

/-- The error has no place, and says that the input ends too early. -/
structure ReportedAtEnd (e : ParseError) : Prop where
  place : e.position = {}
  got : e.got = .endOfInput
  kind : e.fault.kind = "empty program" ∨ e.fault.kind = "malformed function"
  text : e.message = "Parse error: " ++ e.fault.describe ++ " at end of input"

/-- The error shows the place and the kind of the token. -/
structure ReportedAt (t : Token) (e : ParseError) : Prop where
  place : e.position = t.position
  got : e.got = t.kind
  text : e.message =
    "Parse error: " ++ e.fault.describe ++ " at " ++ (t.position.text ++ " (got " ++ t.kind.name ++ ")")

private theorem reported_at_end {fault : ParseFault}
    (kind : fault.kind = "empty program" ∨ fault.kind = "malformed function") :
    ReportedAtEnd ⟨fault, none⟩ where
  place := rfl
  got := rfl
  kind
  text := by
    have unknown : ¬(ParseError.mk fault none).position.isKnown = true := Bool.false_ne_true
    rw [ParseError.message, if_neg unknown, String.append_assoc]
    rfl

theorem Names.reported (known : ∀ t ∈ ts, t.position.isKnown = true) (names : Names ts e) :
    ∃ t ∈ ts, ReportedAt t e := by
  obtain ⟨t, member, ⟨culprit, _⟩, _⟩ := names
  have place : e.position = t.position := by rw [ParseError.position, culprit, Option.map_some, Option.getD_some]
  have got : e.got = t.kind := by rw [ParseError.got, culprit, Option.map_some, Option.getD_some]
  refine ⟨t, member, place, got, ?_⟩
  rw [ParseError.message, place, got, if_pos (known t member)]

/-- Only a reading of nothing misses an expression. -/
theorem missingExpression_iff (failed : segmentLength ts = .error e ∨ parse ts = .error e) :
    e.fault = .missingExpression ↔ ts = [] := by
  constructor
  · intro missing
    by_contra filled
    have blames : Blames ts e := failed.elim (segmentLength_blames filled) (parse_blames filled)
    rcases blames with ⟨_, _, _, common⟩ | ⟨t, _, _, rfl⟩
    · exact common.1 missing
    · cases missing
  · rintro rfl
    rcases failed with failed | failed
    · rw [segmentLength] at failed
      cases failed
      rfl
    · rw [parse_of_no_shape (e := ⟨.missingExpression, none⟩) rfl] at failed
      cases failed
      rfl

/-- Where the tokens have places, an error is reported at one of them, or at the end if there is nothing to run or a
declaration breaks off; and every node of a program that is read stands at one of them. -/
theorem reports_and_nodes_at_tokens (known : ∀ t ∈ ts, t.position.isKnown = true) :
    (∀ e, parseProgram ts = .error e →
      e.fault ≠ .missingExpression ∧ (ReportedAtEnd e ∨ ∃ t ∈ ts, ReportedAt t e)) ∧
    (∀ program, parseProgram ts = .ok program →
      program.main.places ⊆ ts.map Token.position ∧
        ∀ d ∈ program.functions, d.body.places ⊆ ts.map Token.position) ∧
    ∀ us e, segmentLength us = .error e ∨ parse us = .error e → (e.fault = .missingExpression ↔ us = []) := by
  refine ⟨fun e failed => ?_, fun program => places_program, fun us e => missingExpression_iff⟩
  rcases parseProgram_names failed with rfl | (rfl | rfl) | names
  · exact ⟨by simp, Or.inl (reported_at_end (Or.inl rfl))⟩
  · exact ⟨by simp [faultAt], Or.inl (reported_at_end (Or.inr rfl))⟩
  · exact ⟨by simp [faultAt], Or.inl (reported_at_end (Or.inr rfl))⟩
  · exact ⟨names.choose_spec.2.2.1, Or.inr (names.reported known)⟩

/-- `func f(a) a f(1)`. -/
def sampleIdentity : List Token :=
  [⟨.funcWord, "func", ⟨1, 1⟩⟩, ⟨.ident, "f", ⟨1, 6⟩⟩, ⟨.openParen, "(", ⟨1, 7⟩⟩, ⟨.ident, "a", ⟨1, 8⟩⟩,
    ⟨.closeParen, ")", ⟨1, 9⟩⟩, ⟨.ident, "a", ⟨1, 11⟩⟩, ⟨.ident, "f", ⟨1, 13⟩⟩, ⟨.openParen, "(", ⟨1, 14⟩⟩,
    ⟨.number, "1", ⟨1, 15⟩⟩, ⟨.closeParen, ")", ⟨1, 16⟩⟩]

/-- Without the last two tokens the call is not closed, and with the first two alone the declaration breaks off. -/
theorem sampleIdentity_reports :
    (∀ t ∈ sampleIdentity, t.position.isKnown = true) ∧
    (∃ e, parseProgram (sampleIdentity.take 8) = .error e ∧ ∃ t ∈ sampleIdentity.take 8, ReportedAt t e) ∧
    (∃ e, parseProgram (sampleIdentity.take 2) = .error e ∧ ReportedAtEnd e) ∧
    ∃ program, parseProgram sampleIdentity = .ok program ∧
      program.main.places ⊆ sampleIdentity.map Token.position ∧
      ∀ d ∈ program.functions, d.body.places ⊆ sampleIdentity.map Token.position := by
  have known : ∀ t ∈ sampleIdentity, t.position.isKnown = true := by decide
  have unclosed : ((parseProgram (sampleIdentity.take 8)).map fun _ => ()) =
      .error (Token.fault ⟨.ident, "f", ⟨1, 13⟩⟩ .noRule) := by decide +kernel
  have broken : ((parseProgram (sampleIdentity.take 2)).map fun _ => ()) =
      .error (faultAt [] .missingParameterList) := by decide +kernel
  have accepted : (parseProgram sampleIdentity).isOk = true := by decide +kernel
  have part (n : Nat) : ∀ t ∈ sampleIdentity.take n, t.position.isKnown = true :=
    fun t member => known t (List.mem_of_mem_take member)
  refine ⟨known, ⟨_, map_eq_error unclosed, ?_⟩, ⟨_, map_eq_error broken, ?_⟩, ?_⟩
  · rcases ((reports_and_nodes_at_tokens (part 8)).1 _ (map_eq_error unclosed)).2 with atEnd | reported
    · cases atEnd.place
    · exact reported
  · rcases ((reports_and_nodes_at_tokens (part 2)).1 _ (map_eq_error broken)).2 with atEnd | ⟨t, member, reported⟩
    · exact atEnd
    · have somewhere := part 2 t member
      rw [← reported.place] at somewhere
      cases somewhere
  · cases read : parseProgram sampleIdentity with
    | error e =>
      rw [read] at accepted
      cases accepted
    | ok program => exact ⟨program, rfl, (reports_and_nodes_at_tokens known).2.1 program read⟩

end Scriptlet.Proofs.TokenBlame
