import Scriptlet.Grammar.Program

/-! A reader that watches itself. It goes through the tokens by index and cuts them by index, and it stops with a mishap
where an index is out of range, where a function is entered while it is active with no fewer tokens, and where a loop
or a descent does not come to an end in time. -/

namespace Scriptlet.Proofs.GuardedReader
open Grammar

/-- The functions that call each other. -/
inductive Stage where
  | tree
  | search
  | statement
  | branch
  | loop
  deriving DecidableEq

inductive Mishap where
  | outOfRange
  | notShorter
  | endless
  deriving DecidableEq

/-- A computation that may meet with a mishap, and may otherwise fail on account of the tokens. -/
abbrev Guarded (α : Type) := ExceptT ParseError (Except Mishap) α

section Basics
variable {α : Type}

/-- An outcome without a mishap. -/
def sound (outcome : Except ParseError α) : Guarded α := ExceptT.mk (.ok outcome)

def fails (e : ParseError) : Guarded α := sound (.error e)

def stops (mishap : Mishap) : Guarded α := ExceptT.mk (.error mishap)

/-- Takes a failure for no answer. A mishap stays one. -/
def attempt (computation : Guarded α) : Guarded (Option α) :=
  ExceptT.mk (computation.run.map fun outcome => .ok outcome.toOption)

end Basics

def token (ts : List Token) (i : Int) : Guarded Token :=
  if 0 ≤ i then
    match ts[i.toNat]? with
    | some t => pure t
    | none => stops .outOfRange
  else stops .outOfRange

/-- The tokens from one index up to another. -/
def slice (ts : List Token) (i j : Int) : Guarded (List Token) :=
  if 0 ≤ i ∧ i ≤ j ∧ j ≤ ts.length then pure ((ts.take j.toNat).drop i.toNat) else stops .outOfRange

/-- The tokens in front of an index and those from it on. -/
def cutAtIndex (ts : List Token) (i : Int) : Guarded (List Token × List Token) := do
  let front ← slice ts 0 i
  let back ← slice ts i ts.length
  return (front, back)

/-- The calls that have not returned, and how many tokens each of them was given. -/
abbrev OpenCalls := List (Stage × Nat)

def enter (stage : Stage) (ts : List Token) (active : OpenCalls) : Guarded OpenCalls :=
  if ∀ call ∈ active, call.1 = stage → ts.length < call.2 then pure ((stage, ts.length) :: active)
  else stops .notShorter

/-- The index of the bracket that closes the one at which the search began. -/
def partner (opening closing : TokenKind) (ts : List Token) : Nat → Nat → Int → Guarded (Option Nat)
  | 0, _, _ => stops .endless
  | count + 1, i, depth =>
    if ts.length ≤ i then pure none
    else do
      let t ← token ts i
      if t.kind = opening then partner opening closing ts count (i + 1) (depth + 1)
      else if t.kind = closing then
        if depth = 1 then pure (some i) else partner opening closing ts count (i + 1) (depth - 1)
      else partner opening closing ts count (i + 1) depth

def blockEnd (ts : List Token) (i : Nat) : Guarded Nat := do
  match ← partner .openBrace .closeBrace ts (ts.length + 1) i 0 with
  | some last => pure last
  | none => fails ((← token ts i).fault .unclosedBrace)

/-- What is done at the token at an index: the statement ends in front of it, or it goes on behind some last token that
is passed, inside so many parentheses. -/
def stepAt (branch loop : List Token → Guarded Nat) (ts : List Token) (i parens : Nat) (t : Token) :
    Guarded (Option (Nat × Int)) :=
  match t.kind with
  | .ifWord => do
    let n ← branch (← slice ts i ts.length)
    return some (parens, i + n - 1)
  | .whileWord => do
    let n ← loop (← slice ts i ts.length)
    return some (parens, i + n - 1)
  | .openBrace => do return some (parens, ↑(← blockEnd ts i))
  | .openParen => pure (some (parens + 1, i))
  | .closeParen =>
    if parens = 0 then if 0 < i then pure none else fails (t.fault .strayCloseParen)
    else pure (some (parens - 1, i))
  | .comma =>
    if parens = 0 then if 0 < i then pure none else fails (t.fault .strayComma)
    else pure (some (parens, i))
  | .closeBrace => fails (t.fault .strayCloseBrace)
  | .funcWord => fails (t.fault .strayFunction)
  | .elseWord => fails (t.fault .strayElse)
  | .returnWord => fails (t.fault .strayReturn)
  | _ => pure (some (parens, i))

/-- Whether a statement ends behind the token at an index. -/
def endsBehind (ts : List Token) (parens : Nat) (last : Int) : Guarded Bool := do
  let t ← token ts last
  if parens = 0 ∧ endsExpression t.kind = true ∧ last + 1 < ts.length then
    let next ← token ts (last + 1)
    return startsStatement next.kind
  else return false

def scan (branch loop : List Token → Guarded Nat) (ts : List Token) :
    Nat → Nat → Nat → Guarded (List Token × List Token)
  | 0, _, _ => stops .endless
  | count + 1, i, parens =>
    if ts.length ≤ i then pure (ts, [])
    else do
      match ← stepAt branch loop ts i parens (← token ts i) with
      | none => cutAtIndex ts i
      | some (parens, last) =>
        if ← endsBehind ts parens last then cutAtIndex ts (last + 1)
        else scan branch loop ts count (last + 1).toNat parens

/-- The parts of an `if`. -/
structure BranchParts where
  condition : List Token
  action : List Token
  otherwise : Option (List Token)

def BranchParts.length (parts : BranchParts) : Nat :=
  1 + parts.condition.length + parts.action.length + (match parts.otherwise with
    | none => 0
    | some last => 1 + last.length)

/-- The parts of a `while`. -/
structure LoopParts where
  condition : List Token
  action : List Token

def LoopParts.length (parts : LoopParts) : Nat := 1 + parts.condition.length + parts.action.length

/-- Whether nothing is returned that is written down. -/
def returnsNothing (ts : List Token) : Guarded Bool :=
  if ts.length = 1 then pure true
  else do
    let next ← token ts 1
    return next.kind = .elseWord ∨ next.kind = .closeBrace

mutual

/-- The statement at the front, and the tokens behind it. -/
def nextSegment : Nat → OpenCalls → List Token → Guarded (List Token × List Token)
  | 0, _, _ => stops .endless
  | fuel + 1, active, ts => do
    let active ← enter .statement ts active
    if ts.length = 0 then fails ⟨.missingExpression, none⟩
    else
      let branch := fun us => BranchParts.length <$> splitBranch fuel active us
      let loop := fun us => LoopParts.length <$> splitLoop fuel active us
      let first ← token ts 0
      match first.kind with
      | .ifWord => cutAtIndex ts (← branch ts)
      | .whileWord => cutAtIndex ts (← loop ts)
      | .returnWord =>
        if ← returnsNothing ts then cutAtIndex ts 1 else scan branch loop ts (ts.length + 1) 1 0
      | _ => scan branch loop ts (ts.length + 1) 0 0

/-- The parts of the `if` at the front. -/
def splitBranch : Nat → OpenCalls → List Token → Guarded BranchParts
  | 0, _, _ => stops .endless
  | fuel + 1, active, ts => do
    let active ← enter .branch ts active
    if ts.length < 2 then fails ((← token ts 0).fault .bareIf)
    else
      let (condition, rest) ← nextSegment fuel active (← slice ts 1 ts.length)
      if rest.length = 0 then fails ((← token ts 0).fault .missingIfAction)
      else
        let (action, rest) ← nextSegment fuel active rest
        if rest.length = 0 then return ⟨condition, action, none⟩
        else
          let next ← token rest 0
          if next.kind = .elseWord then
            if rest.length < 2 then fails (next.fault .bareElse)
            else
              let (otherwise, _) ← nextSegment fuel active (← slice rest 1 rest.length)
              return ⟨condition, action, some otherwise⟩
          else return ⟨condition, action, none⟩

/-- The parts of the `while` at the front. -/
def splitLoop : Nat → OpenCalls → List Token → Guarded LoopParts
  | 0, _, _ => stops .endless
  | fuel + 1, active, ts => do
    let active ← enter .loop ts active
    if ts.length < 2 then fails ((← token ts 0).fault .bareWhile)
    else
      let (condition, rest) ← nextSegment fuel active (← slice ts 1 ts.length)
      if rest.length = 0 then fails ((← token ts 0).fault .missingLoopAction)
      else
        let (action, _) ← nextSegment fuel active rest
        return ⟨condition, action⟩

end

/-- The length of the `if` or `while` at the front. -/
def constructAt (fuel : Nat) (active : OpenCalls) (ts : List Token) : Guarded Nat := do
  if (← token ts 0).kind = .ifWord then BranchParts.length <$> splitBranch fuel active ts
  else LoopParts.length <$> splitLoop fuel active ts

/-- The index of the first wanted token outside all brackets, from an index on. -/
def search (construct : List Token → Guarded Nat) (wanted : Nat → Token → Guarded Bool) (ts : List Token) :
    Nat → Nat → Int → Int → Guarded (Option Nat)
  | 0, _, _, _ => stops .endless
  | count + 1, i, parens, braces =>
    if ts.length ≤ i then pure none
    else do
      let t ← token ts i
      let onward := search construct wanted ts count (i + 1) (parens + bracketStep .openParen .closeParen t.kind)
        (braces + bracketStep .openBrace .closeBrace t.kind)
      if parens ≤ 0 ∧ braces ≤ 0 then
        if ← wanted i t then pure (some i)
        else if 0 < i ∧ (t.kind = .ifWord ∨ t.kind = .whileWord) then
          match ← attempt (construct (← slice ts i ts.length)) with
          | some n => search construct wanted ts count (i + n) parens braces
          | none => onward
        else onward
      else onward

def topLevel (fuel : Nat) (active : OpenCalls) (wanted : Nat → Token → Guarded Bool) (ts : List Token) :
    Guarded (Option Nat) := do
  let active ← enter .search ts active
  search (constructAt fuel active) wanted ts (ts.length + 1) 0 0 0

def oneOf (kinds : List TokenKind) : Nat → Token → Guarded Bool := fun _ t => pure (kinds.contains t.kind)

/-- The functions that a rule may call. -/
structure Callees where
  segment : List Token → Guarded (List Token × List Token)
  branch : List Token → Guarded BranchParts
  loop : List Token → Guarded LoopParts
  find : (Nat → Token → Guarded Bool) → List Token → Guarded (Option Nat)
  tree : List Token → Guarded Node

/-- A rule gives the tree of the statements to which it applies. -/
abbrev Check := List Token → Guarded (Option Node)

/-- The trees of all statements of a token list. -/
def blockNodes (calls : Callees) : Nat → List Token → Guarded (List Node)
  | 0, _ => stops .endless
  | count + 1, ts =>
    if ts.length = 0 then pure []
    else do
      let (segment, rest) ← calls.segment ts
      let node ← calls.tree segment
      return node :: (← blockNodes calls count rest)

def checkGroup (calls : Callees) : Check := fun ts => do
  let first ← token ts 0
  if first.kind = .openParen then
    match ← partner .openParen .closeParen ts (ts.length + 1) 0 0 with
    | none => fails (first.fault .unclosedParen)
    | some last =>
      if last + 1 ≠ ts.length then pure none
      else if last = 1 then fails (first.fault .emptyParens)
      else some <$> calls.tree (← slice ts 1 last)
  else pure none

def checkBlock (calls : Callees) : Check := fun ts => do
  let first ← token ts 0
  if first.kind = .openBrace then
    let last ← blockEnd ts 0
    if last + 1 ≠ ts.length then pure none
    else
      let inner ← slice ts 1 last
      return some (.block first.position (← blockNodes calls (inner.length + 1) inner))
  else pure none

def checkReturn (calls : Callees) : Check := fun ts => do
  let first ← token ts 0
  if first.kind = .returnWord then
    if ts.length = 1 then return some (.ret first.position (.const first.position .empty))
    else return some (.ret first.position (← calls.tree (← slice ts 1 ts.length)))
  else pure none

def checkBranch (calls : Callees) : Check := fun ts => do
  let first ← token ts 0
  if first.kind = .ifWord then
    let parts ← calls.branch ts
    if parts.length ≠ ts.length then fails ((← token ts parts.length).fault .tokensAfterIf)
    else
      let condition ← calls.tree parts.condition
      let action ← calls.tree parts.action
      match parts.otherwise with
      | none => return some (.branch first.position condition action .absent)
      | some last => return some (.branch first.position condition action (← calls.tree last))
  else pure none

def checkLoop (calls : Callees) : Check := fun ts => do
  let first ← token ts 0
  if first.kind = .whileWord then
    let parts ← calls.loop ts
    if parts.length ≠ ts.length then fails ((← token ts parts.length).fault .tokensAfterLoop)
    else
      let condition ← calls.tree parts.condition
      let action ← calls.tree parts.action
      return some (.loop first.position condition action)
  else pure none

def checkNegation (calls : Callees) : Check := fun ts => do
  let first ← token ts 0
  if first.kind = .minus then
    if ts.length = 1 then fails (first.fault .bareMinus)
    else return some (operatorCall first "__negate" [← calls.tree (← slice ts 1 ts.length)])
  else pure none

def checkLeaf : Check := fun ts =>
  if ts.length = 1 then do
    match leafRule (← token ts 0) [] with
    | .error e => fails e
    | .ok (some (.leaf node)) => return some node
    | .ok _ => pure none
  else pure none

def checkAssignment (calls : Callees) : Check := fun ts => do
  match ← calls.find (oneOf assignmentKinds) ts with
  | none => pure none
  | some i =>
    let operator ← token ts i
    let first ← token ts 0
    if i ≠ 1 ∨ first.kind ≠ .ident then fails (operator.fault .badAssignmentTarget)
    else if i + 1 = ts.length then fails (operator.fault (.missingAssignedValue operator.kind))
    else
      let value ← calls.tree (← slice ts (i + 1) ts.length)
      match updateFunction? operator.kind with
      | some function =>
        let old := Node.get first.position first.lexeme
        return some (.set first.position first.lexeme (operatorCall operator function [old, value]))
      | none => return some (.set first.position first.lexeme value)

/-- The operands on both sides of an index. -/
def binaryAt (calls : Callees) (ts : List Token) (i : Nat) : Guarded (Option Node) := do
  let operator ← token ts i
  if i = 0 then fails (operator.fault (.missingLeftOperand operator.kind))
  else if i + 1 = ts.length then fails (operator.fault (.missingRightOperand operator.kind))
  else
    let left ← calls.tree (← slice ts 0 i)
    let right ← calls.tree (← slice ts (i + 1) ts.length)
    return some (operatorCall operator (operatorFunction operator.kind) [left, right])

def checkOperator (kinds : List TokenKind) (calls : Callees) : Check := fun ts => do
  match ← calls.find (oneOf kinds) ts with
  | none => pure none
  | some i => binaryAt calls ts i

/-- A sign behind a token that can end an operand. -/
def wantedSign (ts : List Token) (i : Nat) (t : Token) : Guarded Bool :=
  if 0 < i ∧ isSign t.kind = true then do
    let before ← token ts (i - 1)
    return endsOperand before.kind
  else pure false

def checkAdditive (calls : Callees) : Check := fun ts => do
  match ← calls.find (wantedSign ts) ts with
  | none => pure none
  | some i =>
    if i + 1 < ts.length then
      let next ← token ts (i + 1)
      if isSign next.kind then fails (next.fault .doubleAdditive) else binaryAt calls ts i
    else binaryAt calls ts i

def checkNot (calls : Callees) : Check := fun ts => do
  match ← calls.find (oneOf [.notWord]) ts with
  | none => pure none
  | some i =>
    let first ← token ts 0
    if i ≠ 0 then fails (first.fault .tokensBeforeNot)
    else if ts.length = 1 then fails (first.fault .bareNot)
    else return some (operatorCall first "__not" [← calls.tree (← slice ts 1 ts.length)])

/-- The index of the parenthesis that opens the list at the end, looked for from the end. -/
def opener (ts : List Token) : Nat → Int → Guarded (Option Nat)
  | 0, _ => pure none
  | j + 1, depth => do
    let t ← token ts j
    let depth := depth + bracketStep .closeParen .openParen t.kind
    if depth = 0 then pure (some j) else opener ts j depth

/-- An argument between two indices. An empty one is blamed on the token that ends it. -/
def argumentAt (calls : Callees) (inner : List Token) (first last : Nat) (culprit : Token) : Guarded Node :=
  if first = last then fails (culprit.fault .emptyArgument) else do calls.tree (← slice inner first last)

def argumentNodes (calls : Callees) (paren : Token) (inner : List Token) :
    List Token → Nat → Nat → Int → Guarded (List Node)
  | [], i, first, _ => do return [← argumentAt calls inner first i paren]
  | t :: rest, i, first, depth =>
    if t.kind = .comma ∧ depth = 0 then do
      let node ← argumentAt calls inner first i t
      return node :: (← argumentNodes calls paren inner rest (i + 1) (i + 1) depth)
    else
      let step := bracketStep .openParen .closeParen t.kind + bracketStep .openBrace .closeBrace t.kind
      argumentNodes calls paren inner rest (i + 1) first (depth + step)

def checkCall (calls : Callees) : Check := fun ts => do
  let last ← token ts (ts.length - 1)
  if last.kind = .closeParen then
    match ← opener ts ts.length 0 with
    | none => fails (last.fault .unpairedCloseParen)
    | some i =>
      let first ← token ts 0
      if i = 0 then fails (first.fault .missingCallee)
      else
        let callee ← calls.tree (← slice ts 0 i)
        let paren ← token ts i
        let inner ← slice ts (i + 1) (ts.length - 1)
        if inner.length = 0 then return some (.call first.position callee [])
        else return some (.call first.position callee (← argumentNodes calls paren inner inner 0 0 0))
  else pure none

def checkMember (calls : Callees) : Check := fun ts => do
  let last ← token ts (ts.length - 1)
  if 3 ≤ ts.length ∧ last.kind = .ident then
    let dot ← token ts (ts.length - 2)
    if dot.kind = .dot then
      return some (.member dot.position (← calls.tree (← slice ts 0 (ts.length - 2))) last.lexeme)
    else pure none
  else pure none

/-- The checks in the order of the rules of the grammar. -/
def checks (calls : Callees) : List Check :=
  [checkGroup calls, checkBlock calls, checkReturn calls, checkBranch calls, checkLoop calls, checkNegation calls,
    checkLeaf, checkAssignment calls,
    checkOperator [.equal, .notEqual, .greater, .greaterEqual, .less, .lessEqual] calls, checkAdditive calls,
    checkOperator [.star, .slash] calls, checkOperator [.orWord] calls, checkOperator [.andWord] calls, checkNot calls,
    checkCall calls, checkMember calls]

def firstNode (ts : List Token) : List Check → Guarded Node
  | [] => do fails ((← token ts 0).fault .noRule)
  | check :: others => do
    match ← check ts with
    | some node => pure node
    | none => firstNode ts others

/-- The tree of the tokens of one statement. -/
def tree : Nat → OpenCalls → List Token → Guarded Node
  | 0, _, _ => stops .endless
  | fuel + 1, active, ts => do
    let active ← enter .tree ts active
    if ts.length = 0 then fails ⟨.missingExpression, none⟩
    else
      firstNode ts (checks {
        segment := nextSegment fuel active
        branch := splitBranch fuel active
        loop := splitLoop fuel active
        find := topLevel fuel active
        tree := tree fuel active })

/-- What can be called where no call is active. -/
def outermost (fuel : Nat) : Callees where
  segment := nextSegment fuel []
  branch := splitBranch fuel []
  loop := splitLoop fuel []
  find := topLevel fuel []
  tree := tree fuel []

/-- The names of a parameter list from an index on, and the index behind the list. -/
def parameterNames (word : Token) (name : String) (ts : List Token) : Nat → Nat → Guarded (List String × Nat)
  | 0, _ => stops .endless
  | count + 1, j =>
    if ts.length ≤ j then fails (word.fault (.unclosedParameterList name))
    else do
      let param ← token ts j
      if param.kind ≠ .ident then fails (param.fault .badParameter)
      else if ts.length ≤ j + 1 then fails (word.fault (.unclosedParameterList name))
      else
        let separator ← token ts (j + 1)
        match separator.kind with
        | .comma => do
          let (others, after) ← parameterNames word name ts count (j + 2)
          return (param.lexeme :: others, after)
        | .closeParen => return ([param.lexeme], j + 2)
        | _ => fails (separator.fault .badParameterSeparator)

def parametersAt (word : Token) (name : String) (ts : List Token) (j : Nat) : Guarded (List String × Nat) :=
  if j < ts.length then do
    if (← token ts j).kind = .closeParen then return ([], j + 1)
    else parameterNames word name ts (ts.length + 1) j
  else parameterNames word name ts (ts.length + 1) j

/-- The declaration whose word is at an index, and the index behind its body. -/
def declarationAt (fuel : Nat) (ts : List Token) (i : Nat) : Guarded (Definition × Nat) := do
  let word ← token ts i
  if ts.length ≤ i + 1 then fails (faultAt [] .missingFunctionName)
  else
    let name ← token ts (i + 1)
    if name.kind ≠ .ident then fails (name.fault .missingFunctionName)
    else if ts.length ≤ i + 2 then fails (faultAt [] .missingParameterList)
    else
      let paren ← token ts (i + 2)
      if paren.kind ≠ .openParen then fails (paren.fault .missingParameterList)
      else
        let (params, j) ← parametersAt word name.lexeme ts (i + 3)
        if ts.length ≤ j then fails (word.fault (.missingBody name.lexeme))
        else
          let (body, _) ← nextSegment fuel [] (← slice ts j ts.length)
          let node ← tree fuel [] body
          return (⟨name.lexeme, params, node⟩, j + body.length)

/-- The index of the last `func` among so many tokens. -/
def lastWord (ts : List Token) : Nat → Guarded (Option Nat)
  | 0 => pure none
  | i + 1 => do
    if (← token ts i).kind = .funcWord then pure (some i) else lastWord ts i

/-- Takes the declarations out, the last one in each round. Each round has to leave fewer tokens. -/
def rounds (fuel : Nat) : Nat → List Definition → List Token → Guarded (List Definition × List Token)
  | 0, _, _ => stops .endless
  | count + 1, functions, ts => do
    match ← lastWord ts ts.length with
    | none => return (functions, ts)
    | some i =>
      let (d, last) ← declarationAt fuel ts i
      let front ← slice ts 0 i
      let back ← slice ts last ts.length
      if (front ++ back).length < ts.length then rounds fuel count (addDefinition d functions) (front ++ back)
      else stops .notShorter

/-- Reads a program, or a fragment, which may have nothing to run. -/
def readTokens (fragment : Bool) (fuel : Nat) (ts : List Token) : Guarded Program := do
  let (functions, rest) ← rounds fuel (ts.length + 1) [] ts
  if rest.length = 0 then
    if fragment then return ⟨functions, {}, []⟩ else fails ⟨.emptyProgram, none⟩
  else
    let first ← token rest 0
    return ⟨functions, first.position, ← blockNodes (outermost fuel) (rest.length + 1) rest⟩

end Scriptlet.Proofs.GuardedReader
