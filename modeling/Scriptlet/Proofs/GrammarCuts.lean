import Scriptlet.Proofs.GrammarShapes

/-! What a rule does with the tokens it applies to: the parts of a shape and the few tokens that the rule
takes for itself make up the tokens of the statement, in their order. Whether a rule applies is another
matter; here it is only said what follows if it does. -/

namespace Scriptlet.Proofs.GrammarCuts
open Grammar GrammarShapes

/-- Signs that stand before their operand, and the function behind them. -/
def unaryFunction? : TokenKind → Option String
  | .minus => some "__negate"
  | .notWord => some "__not"
  | _ => none

inductive Cut : Shape → List Token → Prop where
  | leaf {t : Token} {node : Node} (taken : leafRule t [] = .ok (some (.leaf node))) : Cut (.leaf node) [t]
  | stop {t : Token} (word : t.kind = .returnWord) :
      Cut (.leaf (.ret t.position (.const t.position .empty))) [t]
  | group {first last : Token} {inner : List Token} (opens : first.kind = .openParen)
      (closes : last.kind = .closeParen) : Cut (.group inner) (first :: (inner ++ [last]))
  | block {first last : Token} {inner : List Token} (opens : first.kind = .openBrace)
      (closes : last.kind = .closeBrace) :
      Cut (.block first.position (statements inner)) (first :: (inner ++ [last]))
  | ret {t : Token} {value : List Token} (word : t.kind = .returnWord) : Cut (.ret t.position value) (t :: value)
  | branch {t : Token} {condition action : List Token} (word : t.kind = .ifWord) :
      Cut (.branch t.position condition action none) (t :: (condition ++ action))
  | choice {t opposite : Token} {condition action otherwise : List Token} (word : t.kind = .ifWord)
      (other : opposite.kind = .elseWord) :
      Cut (.branch t.position condition action (some otherwise))
        (t :: (condition ++ (action ++ opposite :: otherwise)))
  | loop {t : Token} {condition action : List Token} (word : t.kind = .whileWord) :
      Cut (.loop t.position condition action) (t :: (condition ++ action))
  | unary {operator : Token} {function : String} {operand : List Token}
      (known : unaryFunction? operator.kind = some function) :
      Cut (.unary operator function operand) (operator :: operand)
  | binary {operator : Token} {left right : List Token} (known : operator.kind ∈ binaryKinds) :
      Cut (.binary operator (operatorFunction operator.kind) left right) (left ++ operator :: right)
  | assign {name operator : Token} {value : List Token} (named : name.kind = .ident)
      (assigns : operator.kind = .assign) : Cut (.assign name value) (name :: operator :: value)
  | update {name operator : Token} {function : String} {value : List Token} (named : name.kind = .ident)
      (known : updateFunction? operator.kind = some function) :
      Cut (.update name operator function value) (name :: operator :: value)
  | call {t paren last : Token} {callee inner : List Token} (opens : paren.kind = .openParen)
      (closes : last.kind = .closeParen) (front : callee.head? = some t) :
      Cut (.call t.position callee (arguments paren inner)) (callee ++ paren :: (inner ++ [last]))
  | member {dot name : Token} {base : List Token} (dotted : dot.kind = .dot) (named : name.kind = .ident) :
      Cut (.member dot base name.lexeme) (base ++ [dot, name])

def Cuts (rule : Rule) : Prop :=
  ∀ {t : Token} {rest : List Token} {shape : Shape}, rule t rest = .ok (some shape) → Cut shape (t :: rest)

theorem closing_cut {opening closing : TokenKind} {depth n : Nat} {ts : List Token}
    (found : closing? opening closing depth ts = some n) :
    ∃ front last rest, ts = front ++ last :: rest ∧ last.kind = closing ∧ n = front.length + 1 := by
  induction ts generalizing depth n with
  | nil => cases found
  | cons t ts ih =>
    -- Wherever the search goes on, the token at hand goes in front of what was passed.
    have onward {deeper : Nat} (later : (closing? opening closing deeper ts).map (· + 1) = some n) :
        ∃ front last rest, t :: ts = front ++ last :: rest ∧ last.kind = closing ∧ n = front.length + 1 := by
      obtain ⟨m, inner, rfl⟩ := Option.map_eq_some_iff.mp later
      obtain ⟨front, last, rest, rfl, closes, rfl⟩ := ih inner
      exact ⟨t :: front, last, rest, rfl, closes, rfl⟩
    rw [closing?] at found
    split at found
    · exact onward found
    · split at found
      next closes =>
        split at found
        · cases found
          exact ⟨[], t, ts, rfl, closes, rfl⟩
        · exact onward found
      · exact onward found

theorem enclosed_of_closing {opening closing : TokenKind} {t : Token} {rest : List Token}
    (different : opening ≠ closing) (opens : t.kind = opening)
    (found : closing? opening closing 0 (t :: rest) = some (t :: rest).length) :
    ∃ inner last, rest = inner ++ [last] ∧ last.kind = closing := by
  obtain ⟨front, last, after, whole, closes, length⟩ := closing_cut found
  have nothing : after = [] := by
    have lengths := congrArg List.length whole
    simp only [List.length_append, List.length_cons] at lengths length
    apply List.length_eq_zero_iff.mp
    omega
  subst nothing
  cases front with
  | nil =>
    cases whole
    exact absurd (opens.symm.trans closes) different
  | cons first inner =>
    cases whole
    exact ⟨inner, last, rfl, closes⟩

private theorem groupRule_cuts : Cuts groupRule := by
  intro t rest shape found
  simp only [groupRule] at found
  split at found
  next opens =>
    split at found
    · cases found
    next n closed =>
      split at found
      · cases found
      next whole =>
        split at found
        · cases found
        · cases found
          rw [Decidable.not_not.mp whole] at closed
          obtain ⟨inner, last, rfl, closes⟩ := enclosed_of_closing (by simp) opens closed
          rw [List.dropLast_concat]
          exact .group opens closes
  · cases found

private theorem blockRule_cuts : Cuts blockRule := by
  intro t rest shape found
  simp only [blockRule, blockLength] at found
  split at found
  next opens =>
    split at found
    · cases found
    next n measured =>
      split at measured
      next closed =>
        cases measured
        split at found
        · cases found
        next whole =>
          cases found
          rw [Decidable.not_not.mp whole] at closed
          obtain ⟨inner, last, rfl, closes⟩ := enclosed_of_closing (by simp) opens closed
          rw [List.dropLast_concat]
          exact .block opens closes
      · cases measured
  · cases found

private theorem returnRule_cuts : Cuts returnRule := by
  intro t rest shape found
  simp only [returnRule] at found
  split at found
  next word =>
    split at found
    next bare =>
      cases found
      rw [List.isEmpty_iff.mp bare]
      exact .stop word
    · cases found
      exact .ret word
  · cases found

/-- Where an `if` has an alternative, the word for it stands behind the action. -/
theorem branchLengths_opposite {word : Token} {body : List Token} {parts : BranchLengths} {n : Nat}
    (found : branchLengths word body = .ok parts) (given : parts.otherwise = some n) :
    ∃ opposite, body[parts.condition + parts.action]? = some opposite ∧ opposite.kind = .elseWord := by
  rw [branchLengths] at found
  simp only [bind, Except.bind, throw, throwThe, MonadExceptOf.throw] at found
  repeat' split at found
  all_goals cases found
  · cases given
  next opposite there kind _ _ _ _ =>
    exact ⟨opposite, there, kind⟩
  · cases given

private theorem append_of_lengths {ts : List Token} {first second : Nat} (total : first + second = ts.length) :
    ts.take first ++ (ts.drop first).take second = ts := by
  have all : (ts.drop first).take second = ts.drop first := by
    apply List.take_of_length_le
    rw [List.length_drop]
    omega
  rw [all, List.take_append_drop]

private theorem append_of_between {ts : List Token} {t : Token} {first second : Nat}
    (there : ts[first + second]? = some t) :
    ts.take first ++ ((ts.drop first).take second ++ t :: (ts.drop first).drop (second + 1)) = ts := by
  have inside : (ts.drop first)[second]? = some t := by rw [List.getElem?_drop, there]
  obtain ⟨bound, rfl⟩ := List.getElem?_eq_some_iff.mp inside
  rw [← List.drop_eq_getElem_cons bound, List.take_append_drop, List.take_append_drop]

private theorem branchRule_cuts : Cuts branchRule := by
  intro t rest shape found
  simp only [branchRule] at found
  split at found
  next word =>
    split at found
    · cases found
    next parts measured =>
      split at found
      · cases found
      next whole =>
        cases found
        cases given : parts.otherwise with
        | none =>
          have total : parts.condition + parts.action = rest.length := by
            have counted := Decidable.not_not.mp whole
            simp only [BranchLengths.total, given, List.length_cons] at counted
            omega
          have cut := @Cut.branch t (rest.take parts.condition) ((rest.drop parts.condition).take parts.action) word
          rw [append_of_lengths total] at cut
          exact cut
        | some n =>
          obtain ⟨opposite, there, other⟩ := branchLengths_opposite measured given
          have cut := @Cut.choice t opposite (rest.take parts.condition)
            ((rest.drop parts.condition).take parts.action)
            ((rest.drop parts.condition).drop (parts.action + 1)) word other
          rw [append_of_between there] at cut
          exact cut
  · cases found

private theorem loopRule_cuts : Cuts loopRule := by
  intro t rest shape found
  simp only [loopRule] at found
  split at found
  next word =>
    split at found
    · cases found
    next parts measured =>
      split at found
      · cases found
      · cases found
        have cut := @Cut.loop t (rest.take parts.condition) (rest.drop parts.condition) word
        rw [List.take_append_drop] at cut
        exact cut
  · cases found

private theorem negationRule_cuts : Cuts negationRule := by
  intro t rest shape found
  simp only [negationRule] at found
  split at found
  next sign =>
    split at found
    · cases found
    · cases found
      exact .unary (by rw [sign]; rfl)
  · cases found

theorem leafRule_leaf {t : Token} {shape : Shape} (found : leafRule t [] = .ok (some shape)) :
    ∃ node, shape = .leaf node := by
  simp only [leafRule] at found
  repeat' split at found
  all_goals cases found
  all_goals exact ⟨_, rfl⟩

private theorem leafRule_cuts : Cuts leafRule := by
  intro t rest shape found
  cases rest with
  | nil =>
    obtain ⟨node, rfl⟩ := leafRule_leaf found
    exact .leaf found
  | cons next rest => cases found

theorem splitOutside_cut {wanted : Option Token → Token → Bool} {previous : Option Token} {parens braces : Int}
    {tokens : List Token} {split : Split} (found : splitOutside? wanted previous parens braces tokens = some split) :
    tokens = split.before ++ split.operator :: split.after ∧ ∃ before, wanted before split.operator = true := by
  fun_induction splitOutside? wanted previous parens braces tokens generalizing split with
  | case1 => cases found
  | case2 =>
    rename_i here
    cases found
    exact ⟨rfl, _, (Bool.and_eq_true_iff.mp here).2⟩
  | case3 =>
    rename_i ih
    obtain ⟨inner, there, rfl⟩ := Option.map_eq_some_iff.mp found
    obtain ⟨rest, wanted⟩ := ih there
    refine ⟨?_, wanted⟩
    simp only [Split.push, List.cons_append, List.append_assoc]
    rw [← rest, List.take_append_drop]
  | case4 =>
    rename_i ih
    obtain ⟨inner, there, rfl⟩ := Option.map_eq_some_iff.mp found
    obtain ⟨rest, wanted⟩ := ih there
    refine ⟨?_, wanted⟩
    simp only [Split.push, List.cons_append, List.nil_append]
    rw [← rest]

theorem splitAt_cut {kinds : List TokenKind} {tokens : List Token} {split : Split}
    (found : splitAt? kinds tokens = some split) :
    tokens = split.before ++ split.operator :: split.after ∧ split.operator.kind ∈ kinds := by
  obtain ⟨whole, _, wanted⟩ := splitOutside_cut found
  exact ⟨whole, by simpa using wanted⟩

private theorem assign_of_no_function {kind : TokenKind} (member : kind ∈ assignmentKinds)
    (none : updateFunction? kind = none) : kind = .assign := by
  have all : ∀ kind ∈ assignmentKinds, updateFunction? kind = Option.none → kind = .assign := by decide
  exact all kind member none

private theorem assignmentRule_cuts : Cuts assignmentRule := by
  intro t rest shape found
  simp only [assignmentRule] at found
  split at found
  · cases found
  next split there =>
    obtain ⟨whole, kind⟩ := splitAt_cut there
    split at found
    · cases found
    next target =>
      obtain ⟨single, named⟩ := not_or.mp target
      obtain ⟨first, isFirst⟩ := List.length_eq_one_iff.mp (Decidable.not_not.mp single)
      rw [isFirst] at whole
      cases whole
      have named := Decidable.not_not.mp named
      split at found
      · cases found
      · split at found
        next known =>
          cases found
          exact .update named known
        next none =>
          cases found
          exact .assign named (assign_of_no_function kind none)

private theorem binaryShape_cut {split : Split} {shape : Shape} (kind : split.operator.kind ∈ binaryKinds)
    (found : binaryShape (operatorFunction split.operator.kind) split = .ok (some shape)) :
    Cut shape (split.before ++ split.operator :: split.after) := by
  simp only [binaryShape] at found
  split at found
  · cases found
  · split at found
    · cases found
    · cases found
      exact .binary kind

private theorem operatorRule_cuts {kinds : List TokenKind} (binary : ∀ kind ∈ kinds, kind ∈ binaryKinds) :
    Cuts (operatorRule kinds) := by
  intro t rest shape found
  simp only [operatorRule] at found
  split at found
  · cases found
  next split there =>
    obtain ⟨whole, kind⟩ := splitAt_cut there
    rw [whole]
    exact binaryShape_cut (binary _ kind) found

private theorem additiveRule_cuts : Cuts additiveRule := by
  intro t rest shape found
  simp only [additiveRule] at found
  split at found
  · cases found
  next split there =>
    obtain ⟨whole, _, wanted⟩ := splitOutside_cut there
    have kind : split.operator.kind ∈ binaryKinds := by
      have sign := (Bool.and_eq_true_iff.mp wanted).1
      simp only [isSign, Bool.or_eq_true, beq_iff_eq] at sign
      rcases sign with sign | sign <;> rw [sign] <;> decide
    rw [whole]
    split at found
    · split at found
      · cases found
      · exact binaryShape_cut kind found
    · exact binaryShape_cut kind found

private theorem notRule_cuts : Cuts notRule := by
  intro t rest shape found
  simp only [notRule] at found
  split at found
  · cases found
  next split there =>
    obtain ⟨whole, kind⟩ := splitAt_cut there
    split at found
    · cases found
    next front =>
      split at found
      · cases found
      · cases found
        rw [List.isEmpty_iff.mp (Decidable.not_not.mp front)] at whole
        cases whole
        exact .unary (by rw [List.mem_singleton.mp kind]; rfl)

private theorem opening_cut {last : Token} {front : List Token} {n : Nat} (closes : last.kind = .closeParen)
    (found : closing? .closeParen .openParen 0 (last :: front) = some n) :
    ∃ inner paren before, front = inner ++ paren :: before ∧ paren.kind = .openParen ∧ n = inner.length + 2 := by
  obtain ⟨passed, paren, before, whole, opens, rfl⟩ := closing_cut found
  -- The search passes the parenthesis it starts from, which is none of the other kind.
  cases passed with
  | nil =>
    cases whole
    rw [closes] at opens
    cases opens
  | cons first inner =>
    rw [List.cons_append] at whole
    obtain ⟨_, rfl⟩ := List.cons.inj whole
    exact ⟨inner, paren, before, rfl, opens, rfl⟩

/-- What a call is cut into, given the parenthesis that belongs to the last one. -/
theorem callRule_opened {t last : Token} {rest front : List Token} {n : Nat}
    (ends : (t :: rest).reverse = last :: front) (closes : last.kind = .closeParen)
    (closed : closing? .closeParen .openParen 0 (last :: front) = some n) :
    ∃ callee paren inner, t :: rest = callee ++ paren :: (inner ++ [last]) ∧ paren.kind = .openParen ∧
      n = inner.length + 2 ∧ callRule t rest = if callee.isEmpty then .error (t.fault .missingCallee)
        else .ok (some (.call t.position callee (arguments paren inner))) := by
  obtain ⟨inner, paren, before, rfl, opens, rfl⟩ := opening_cut closes closed
  have tokens : t :: rest = before.reverse ++ paren :: (inner.reverse ++ [last]) := by
    have back := congrArg List.reverse ends
    simpa using back
  have beyond : (inner ++ paren :: before).drop (inner.length + 1) = before := by
    rw [← List.drop_drop, List.drop_left, List.drop_one, List.tail_cons]
  have there : (inner ++ paren :: before)[inner.length]? = some paren := by
    rw [List.getElem?_append_right (Nat.le_refl _), Nat.sub_self, List.getElem?_cons_zero]
  refine ⟨before.reverse, paren, inner.reverse, tokens, opens, by rw [List.length_reverse], ?_⟩
  rw [callRule, ends]
  simp only [closes, if_true, closed, Nat.add_succ_sub_one, Nat.add_sub_cancel, beyond, there, List.take_left,
    Option.getD_some]

private theorem callRule_cuts : Cuts callRule := by
  intro t rest shape found
  cases ends : (t :: rest).reverse with
  | nil => simp at ends
  | cons last front =>
    by_cases closes : last.kind = .closeParen
    · cases closed : closing? .closeParen .openParen 0 (last :: front) with
      | none => simp [callRule, ends, closes, closed] at found
      | some n =>
        obtain ⟨callee, paren, inner, tokens, opens, _, called⟩ := callRule_opened ends closes closed
        rw [called] at found
        split at found
        · cases found
        next filled =>
          cases found
          have some : callee ≠ [] := fun none => filled (List.isEmpty_iff.mpr none)
          have front : callee.head? = Option.some t := by
            have heads := congrArg List.head? tokens
            rw [List.head?_append, List.head?_eq_some_head some, Option.some_or] at heads
            rw [List.head?_eq_some_head some, ← heads, List.head?_cons]
          rw [tokens]
          exact .call opens closes front
    · simp [callRule, ends, closes] at found

private theorem memberRule_cuts : Cuts memberRule := by
  intro t rest shape found
  simp only [memberRule] at found
  split at found
  next name dot base ends =>
    split at found
    next facts =>
      obtain ⟨named, dotted, _⟩ := facts
      have tokens : t :: rest = base.reverse ++ [dot, name] := by
        have back := congrArg List.reverse ends
        simpa using back
      cases found
      rw [tokens]
      exact .member dotted named
    · cases found
  · cases found

private theorem rules_cut : ∀ rule ∈ rules, Cuts rule := by
  intro rule member
  simp only [rules, List.mem_cons, List.not_mem_nil, or_false] at member
  rcases member with rfl | rfl | rfl | rfl | rfl | rfl | rfl | rfl | rfl | rfl | rfl | rfl | rfl |
    rfl | rfl | rfl
  · exact groupRule_cuts
  · exact blockRule_cuts
  · exact returnRule_cuts
  · exact branchRule_cuts
  · exact loopRule_cuts
  · exact negationRule_cuts
  · exact leafRule_cuts
  · exact assignmentRule_cuts
  · exact operatorRule_cuts (by decide)
  · exact additiveRule_cuts
  · exact operatorRule_cuts (by decide)
  · exact operatorRule_cuts (by decide)
  · exact operatorRule_cuts (by decide)
  · exact notRule_cuts
  · exact callRule_cuts
  · exact memberRule_cuts

private theorem firstShape_cut {t : Token} {rest : List Token} {candidates : List Rule} {shape : Shape}
    (cuts : ∀ rule ∈ candidates, Cuts rule) (found : firstShape t rest candidates = .ok shape) :
    Cut shape (t :: rest) := by
  induction candidates with
  | nil => cases found
  | cons rule others ih =>
    simp only [firstShape] at found
    split at found
    · cases found
    next there =>
      cases found
      exact cuts rule List.mem_cons_self there
    · exact ih (fun rule member => cuts rule (List.mem_cons_of_mem _ member)) found

theorem cut_of_shape {ts : List Token} {found : Shape} (shaped : shape ts = .ok found) : Cut found ts := by
  cases ts with
  | nil => cases shaped
  | cons t rest => exact firstShape_cut rules_cut shaped

end Scriptlet.Proofs.GrammarCuts
