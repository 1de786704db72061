import Scriptlet.Proofs.AcceptedNesting
import Scriptlet.Proofs.TokenRendering

/-! How operators group. A row of operands with an operator between each two has one tree in which the
operators on the left of each operator bind tighter than it and those on its right at least as tightly.
The reader splits a row at the first of its loosest operators, and so it reads the row as that tree. -/

namespace Scriptlet.Proofs.OperatorGrouping
open Grammar GrammarNesting GrammarShapes GrammarReading ConcreteSyntax TokenRendering

/-- The kinds of tokens that are operands on their own. -/
def wordKinds : List TokenKind := [.ident, .number, .string]

/-- A name or a constant that stands alone, or a stretch in parentheses that can be read. -/
inductive Operand where
  | word (t : Token) (plain : t.kind ∈ wordKinds)
  | group (first : Token) (inner : List Token) (last : Token) (opens : first.kind = .openParen)
      (closes : last.kind = .closeParen) (readable : ∃ node, parse inner = .ok node)

structure BinaryOperator where
  token : Token
  binary : token.kind ∈ binaryKinds

def BinaryOperator.level (operator : BinaryOperator) : Nat := GrammarShapes.level operator.token.kind

namespace Operand

def tokens : Operand → List Token
  | word t _ => [t]
  | group first inner last _ _ _ => first :: (inner ++ [last])

/-- What an operand means. Its parentheses leave no trace. -/
def read : Operand → Except ParseError Node
  | word t _ =>
    if t.kind = .ident then .ok (.get t.position t.lexeme)
    else match literal? t with
      | some value => .ok (.const t.position value)
      | none => .error (t.fault (.badNumber t.lexeme))
  | group _ inner _ _ _ _ => parse inner

/-- A token that says it is a number is one. -/
def Sound : Operand → Prop
  | word t _ => t.kind = .number → ∃ n, Number.parse? t.lexeme = some n
  | group .. => True

theorem side (operand : Operand) (bound : Nat) : Side bound operand.tokens := by
  cases operand with
  | word t plain =>
    have facts : ∀ kind ∈ wordKinds, ¬IsBracket kind ∧ (kind ≠ .ifWord ∧ kind ≠ .whileWord) ∧
        kind ∈ operandKinds ∧ endsOperand kind = true := by decide
    obtain ⟨outside, word, starts, ends⟩ := facts _ plain
    exact ⟨(only_single outside word).mono (by simp [kindsFrom, starts]), ⟨t, rfl, starts⟩, t, rfl, ends⟩
  | group first inner last opens closes readable =>
    obtain ⟨_, parsed⟩ := readable
    exact Wrapped.side (.intro opens closes (nested_of_parse parsed)) bound

private theorem leafRule_word {t : Token} (plain : t.kind ∈ wordKinds) :
    leafRule t [] = (word t plain).read.map fun node => some (.leaf node) := by
  rcases List.mem_cons.mp plain with named | plain
  · simp [leafRule, read, named]
    rfl
  rcases List.mem_cons.mp plain with number | plain
  · cases said : Number.parse? t.lexeme <;> simp [leafRule, read, literal?, number, said] <;> rfl
  · simp [leafRule, read, literal?, List.mem_singleton.mp plain]
    rfl

theorem parse_tokens (operand : Operand) : parse operand.tokens = operand.read := by
  cases operand with
  | word t plain =>
    have facts : ∀ kind ∈ wordKinds, kind ≠ .openParen ∧ decides kind = false := by decide
    obtain ⟨unopened, undecided⟩ := facts _ plain
    have shaped := @shape_undecided t [] (groupRule_none unopened) undecided
    rw [firstShape, leafRule_word plain] at shaped
    cases meant : (word t plain).read with
    | ok node =>
      rw [meant] at shaped
      exact parse_of_shape shaped
    | error e =>
      rw [meant] at shaped
      exact parse_of_no_shape shaped
  | group first inner last opens closes readable =>
    obtain ⟨_, parsed⟩ := readable
    exact parse_of_shape (shape_group (.intro opens closes (nested_of_parse parsed)) (parse_ne_nil parsed))

private theorem read_ok_iff (operand : Operand) : (∃ node, operand.read = .ok node) ↔ operand.Sound := by
  cases operand with
  | word t plain =>
    rcases List.mem_cons.mp plain with named | plain
    · simp [read, Sound, named]
    rcases List.mem_cons.mp plain with number | plain
    · cases said : Number.parse? t.lexeme <;> simp [read, Sound, literal?, number, said]
    · simp [read, Sound, literal?, List.mem_singleton.mp plain]
  | group first inner last opens closes readable => exact iff_of_true readable trivial

private theorem sound_of_proper {operand : Operand} (proper : ∀ t ∈ operand.tokens, Proper t.word) : operand.Sound := by
  cases operand with
  | group => trivial
  | word t plain =>
    intro number
    obtain ⟨d, lexeme⟩ := decimal_of_proper (proper t (List.mem_singleton.mpr rfl)) number
    exact ⟨d.number, (congrArg Number.parse? lexeme).trans d.parse_canonical⟩

end Operand

/-- A row of operands with an operator in front of each but the first. -/
@[ext]
structure Chain where
  first : Operand
  links : List (BinaryOperator × Operand)

namespace Chain

def tokens (chain : Chain) : List Token :=
  chain.first.tokens ++ chain.links.flatMap fun link => link.1.token :: link.2.tokens

def operands (chain : Chain) : List Operand := chain.first :: chain.links.map Prod.snd

def operators (chain : Chain) : List BinaryOperator := chain.links.map Prod.fst

private theorem mem_tokens (chain : Chain) {operand : Operand} {t : Token} (member : operand ∈ chain.operands)
    (inside : t ∈ operand.tokens) : t ∈ chain.tokens := by
  rcases List.mem_cons.mp member with rfl | linked
  · exact List.mem_append_left _ inside
  · obtain ⟨link, there, rfl⟩ := List.mem_map.mp linked
    exact List.mem_append_right _ (List.mem_flatMap.mpr ⟨link, there, List.mem_cons_of_mem _ inside⟩)

def join (left : Chain) (operator : BinaryOperator) (right : Chain) : Chain :=
  ⟨left.first, left.links ++ (operator, right.first) :: right.links⟩

variable (left right : Chain) (operator : BinaryOperator)

private theorem tokens_join : (left.join operator right).tokens = left.tokens ++ operator.token :: right.tokens := by
  simp [join, tokens]

private theorem operands_join : (left.join operator right).operands = left.operands ++ right.operands := by
  simp [join, operands]

private theorem operators_join :
    (left.join operator right).operators = left.operators ++ operator :: right.operators := by
  simp [join, operators]

end Chain

/-- A tree of operators with operands at its leaves. -/
inductive Grouping where
  | operand (operand : Operand)
  | apply (left : Grouping) (operator : BinaryOperator) (right : Grouping)

namespace Grouping

def inOrder : Grouping → Chain
  | operand single => ⟨single, []⟩
  | apply left operator right => left.inOrder.join operator right.inOrder

/-- Calls of the functions behind the operators, with the operands read from left to right. -/
def read : Grouping → Except ParseError Node
  | operand single => single.read
  | apply left operator right => do
    let left ← left.read
    let right ← right.read
    return operatorCall operator.token (operatorFunction operator.token.kind) [left, right]

/-- Operators of one level group to the right, and tighter ones come below. -/
def Graded : Grouping → Prop
  | operand _ => True
  | apply left operator right => left.Graded ∧ right.Graded ∧
    (∀ inner ∈ left.inOrder.operators, operator.level < inner.level) ∧
    ∀ inner ∈ right.inOrder.operators, operator.level ≤ inner.level

theorem side (tree : Grouping) {bound : Nat} (above : ∀ operator ∈ tree.inOrder.operators, bound ≤ operator.level) :
    Side bound tree.inOrder.tokens := by
  induction tree with
  | operand single => simpa [inOrder, Chain.tokens] using single.side bound
  | apply left operator right ihLeft ihRight =>
    rw [inOrder, Chain.operators_join] at above
    obtain ⟨aboveLeft, above⟩ := List.forall_mem_append.mp above
    obtain ⟨here, aboveRight⟩ := List.forall_mem_cons.mp above
    rw [inOrder, Chain.tokens_join]
    exact (ihLeft aboveLeft).join (ihRight aboveRight) operator.binary here

theorem parse_tokens {tree : Grouping} (graded : tree.Graded) : parse tree.inOrder.tokens = tree.read := by
  induction tree with
  | operand single => simpa [inOrder, Chain.tokens, read] using single.parse_tokens
  | apply left operator right ihLeft ihRight =>
    obtain ⟨gradedLeft, gradedRight, tighter, tight⟩ := graded
    have shaped := shape_binary (left.side tighter) (right.side tight) operator.binary
    rw [inOrder, Chain.tokens_join, parse_of_shape shaped]
    simp only [Shape.build, ihLeft gradedLeft, ihRight gradedRight, read]

private theorem read_ok_iff (tree : Grouping) :
    (∃ node, tree.read = .ok node) ↔ ∀ operand ∈ tree.inOrder.operands, operand.Sound := by
  induction tree with
  | operand single => simpa [inOrder, Chain.operands, read] using single.read_ok_iff
  | apply left operator right ihLeft ihRight =>
    rw [inOrder, Chain.operands_join, List.forall_mem_append, ← ihLeft, ← ihRight, read]
    constructor
    · rintro ⟨node, made⟩
      obtain ⟨first, readLeft, made⟩ := bind_eq_ok made
      obtain ⟨second, readRight, _⟩ := bind_eq_ok made
      exact ⟨⟨first, readLeft⟩, second, readRight⟩
    · rintro ⟨⟨first, readLeft⟩, second, readRight⟩
      rw [readLeft, readRight]
      exact ⟨_, rfl⟩

/-- Puts one more operand in front of a row. It goes below all looser operators. -/
def attach (first : Operand) (operator : BinaryOperator) : Grouping → Grouping
  | operand last => apply (operand first) operator (operand last)
  | apply left inner right =>
    if operator.level ≤ inner.level then apply (operand first) operator (apply left inner right)
    else apply (left.attach first operator) inner right

variable (first : Operand) (operator : BinaryOperator)

private theorem inOrder_attach (tree : Grouping) :
    (tree.attach first operator).inOrder = Chain.join ⟨first, []⟩ operator tree.inOrder := by
  induction tree with
  | operand last => rfl
  | apply left inner right ihLeft ihRight =>
    rw [attach]
    split
    · rfl
    · rw [inOrder, ihLeft, inOrder]
      simp [Chain.join]

private theorem graded_attach {tree : Grouping} (graded : tree.Graded) : (tree.attach first operator).Graded := by
  induction tree with
  | operand last => simp [attach, Graded, inOrder, Chain.operators]
  | apply left inner right ihLeft ihRight =>
    obtain ⟨gradedLeft, gradedRight, tighter, tight⟩ := graded
    rw [attach]
    split
    next below =>
      refine ⟨trivial, ⟨gradedLeft, gradedRight, tighter, tight⟩, by simp [inOrder, Chain.operators], ?_⟩
      rw [inOrder, Chain.operators_join, List.forall_mem_append, List.forall_mem_cons]
      refine ⟨fun other member => ?_, below, fun other member => below.trans (tight other member)⟩
      exact below.trans (tighter other member).le
    next looser =>
      refine ⟨ihLeft gradedLeft, gradedRight, ?_, tight⟩
      rw [inOrder_attach, Chain.operators_join, List.forall_mem_append, List.forall_mem_cons]
      exact ⟨by simp [Chain.operators], Nat.lt_of_not_le looser, tighter⟩

def ofLinks (first : Operand) : List (BinaryOperator × Operand) → Grouping
  | [] => operand first
  | (operator, next) :: links => (ofLinks next links).attach first operator

private theorem ofLinks_spec (links : List (BinaryOperator × Operand)) :
    (ofLinks first links).inOrder = ⟨first, links⟩ ∧ (ofLinks first links).Graded := by
  induction links generalizing first with
  | nil => exact ⟨rfl, trivial⟩
  | cons link links ih =>
    obtain ⟨operator, next⟩ := link
    obtain ⟨row, graded⟩ := ih next
    rw [ofLinks, inOrder_attach, row]
    exact ⟨rfl, graded_attach first operator graded⟩

/-- A link at which a row is split. -/
structure Root (left : List (BinaryOperator × Operand)) (link : BinaryOperator × Operand)
    (right : List (BinaryOperator × Operand)) : Prop where
  tighter : ∀ inner ∈ left, link.1.level < inner.1.level
  tight : ∀ inner ∈ right, link.1.level ≤ inner.1.level

section Root
variable {left right otherLeft otherRight middle : List (BinaryOperator × Operand)}
variable {link otherLink : BinaryOperator × Operand}

/-- Of two roots neither comes first: the one in front would be tighter than the other, and not. -/
theorem Root.not_in_front (root : Root left link (middle ++ otherLink :: otherRight))
    (other : Root (left ++ link :: middle) otherLink otherRight) : False := by
  have below := root.tight otherLink (by simp)
  have above := other.tighter link (by simp)
  omega

theorem Root.unique (root : Root left link right) (other : Root otherLeft otherLink otherRight)
    (same : left ++ link :: right = otherLeft ++ otherLink :: otherRight) :
    left = otherLeft ∧ link = otherLink ∧ right = otherRight := by
  rcases List.append_eq_append_iff.mp same with ⟨middle, rfl, behind⟩ | ⟨middle, rfl, behind⟩
  · cases middle with
    | nil => simpa using behind
    | cons _ middle =>
      obtain ⟨rfl, rfl⟩ := List.cons.inj behind
      exact (root.not_in_front other).elim
  · cases middle with
    | nil => simpa [eq_comm] using behind
    | cons _ middle =>
      obtain ⟨rfl, rfl⟩ := List.cons.inj behind
      exact (other.not_in_front root).elim

end Root

theorem Graded.root {left right : Grouping} (graded : (apply left operator right).Graded) :
    Root left.inOrder.links (operator, right.inOrder.first) right.inOrder.links := by
  obtain ⟨_, _, tighter, tight⟩ := graded
  exact ⟨fun _ member => tighter _ (List.mem_map_of_mem member), fun _ member => tight _ (List.mem_map_of_mem member)⟩

theorem Graded.unique {tree other : Grouping} (graded : tree.Graded) (gradedOther : other.Graded)
    (same : tree.inOrder = other.inOrder) : tree = other := by
  induction tree generalizing other with
  | operand single =>
    cases other with
    | operand => exact congrArg operand (congrArg Chain.first same)
    | apply => simp [inOrder, Chain.join] at same
  | apply left operator right ihLeft ihRight =>
    cases other with
    | operand => simp [inOrder, Chain.join] at same
    | apply otherLeft otherOperator otherRight =>
      obtain ⟨front, links⟩ := Chain.mk.inj same
      obtain ⟨before, root, behind⟩ := graded.root.unique gradedOther.root links
      obtain ⟨rfl, start⟩ := Prod.mk.inj root
      rw [ihLeft graded.1 gradedOther.1 (Chain.ext front before),
        ihRight graded.2.1 gradedOther.2.1 (Chain.ext start behind)]

end Grouping

/-- A row is read as its only graded tree. It can be read exactly if its number tokens are numbers, and those
of a text always are. -/
theorem row_read_as_graded_tree (chain : Chain) :
    ∃ tree : Grouping, tree.inOrder = chain ∧ tree.Graded ∧
      (∀ other : Grouping, other.inOrder = chain → other.Graded → other = tree) ∧
      parse chain.tokens = tree.read ∧
      ((∃ node, parse chain.tokens = .ok node) ↔ ∀ operand ∈ chain.operands, operand.Sound) ∧
      ∀ text ts, tokenize text = .ok ts → chain.tokens ⊆ ts → ∃ node, parse chain.tokens = .ok node := by
  obtain ⟨tree, row, graded⟩ : ∃ tree : Grouping, tree.inOrder = chain ∧ tree.Graded :=
    ⟨_, Grouping.ofLinks_spec chain.first chain.links⟩
  have parsed : parse chain.tokens = tree.read := row ▸ Grouping.parse_tokens graded
  have readable := tree.read_ok_iff
  rw [← parsed, row] at readable
  refine ⟨tree, row, graded, ?_, parsed, readable, ?_⟩
  · intro other same gradedOther
    exact gradedOther.unique graded (same.trans row.symm)
  · intro text ts scanned within
    refine readable.mpr fun operand member => Operand.sound_of_proper fun t inside => ?_
    exact tokens_proper scanned t (within (chain.mem_tokens member inside))

private theorem name_plain : TokenKind.ident ∈ wordKinds := List.mem_cons_self

private theorem number_plain : TokenKind.number ∈ wordKinds := List.mem_cons_of_mem _ List.mem_cons_self

private theorem star_binary : TokenKind.star ∈ binaryKinds := by decide

private theorem minus_binary : TokenKind.minus ∈ binaryKinds := by decide

def sampleName (lexeme : String) (column : Int) : Operand := .word ⟨.ident, lexeme, ⟨1, column⟩⟩ name_plain

def sampleMinus (column : Int) : BinaryOperator := ⟨⟨.minus, "-", ⟨1, column⟩⟩, minus_binary⟩

private theorem sampleName_read (lexeme : String) (column : Int) :
    ∃ node, parse [⟨.ident, lexeme, ⟨1, column⟩⟩] = .ok node :=
  ⟨.get ⟨1, column⟩ lexeme, (sampleName lexeme column).parse_tokens⟩

def sampleProduct : Chain :=
  ⟨sampleName "a" 1, [(⟨⟨.star, "*", ⟨1, 3⟩⟩, star_binary⟩, .word ⟨.number, "2", ⟨1, 5⟩⟩ number_plain)]⟩

def sampleDifference : Chain :=
  ⟨.group ⟨.openParen, "(", ⟨1, 9⟩⟩ [⟨.ident, "b", ⟨1, 10⟩⟩] ⟨.closeParen, ")", ⟨1, 11⟩⟩ rfl rfl (sampleName_read "b" 10),
    [(sampleMinus 13, sampleName "c" 15)]⟩

/-- The product is on the left, and of the two differences the right one comes first. -/
theorem sampleRow_grouped : ∃ left right : Grouping, left.inOrder = sampleProduct ∧ right.inOrder = sampleDifference ∧
    tokenize "a * 2 - (b) - c" = .ok (sampleProduct.join (sampleMinus 7) sampleDifference).tokens ∧
    (left.apply (sampleMinus 7) right).Graded ∧
    parse (sampleProduct.join (sampleMinus 7) sampleDifference).tokens = (left.apply (sampleMinus 7) right).read ∧
    ∃ node, parse (sampleProduct.join (sampleMinus 7) sampleDifference).tokens = .ok node := by
  have scanned : tokenize "a * 2 - (b) - c" = .ok (sampleProduct.join (sampleMinus 7) sampleDifference).tokens := by
    decide +kernel
  obtain ⟨left, product, gradedLeft, _⟩ := row_read_as_graded_tree sampleProduct
  obtain ⟨right, difference, gradedRight, _⟩ := row_read_as_graded_tree sampleDifference
  obtain ⟨tree, _, _, only, parsed, _, succeeds⟩ :=
    row_read_as_graded_tree (sampleProduct.join (sampleMinus 7) sampleDifference)
  have graded : (left.apply (sampleMinus 7) right).Graded := by
    refine ⟨gradedLeft, gradedRight, ?_, ?_⟩
    · rw [product]
      simp [sampleProduct, Chain.operators, BinaryOperator.level, level, sampleMinus]
    · rw [difference]
      simp [sampleDifference, Chain.operators, BinaryOperator.level, level, sampleMinus]
  have same : left.apply (sampleMinus 7) right = tree := by
    refine only _ ?_ graded
    rw [Grouping.inOrder, product, difference]
  exact ⟨left, right, product, difference, scanned, graded, same ▸ parsed,
    succeeds _ _ scanned (List.Subset.refl _)⟩

end Scriptlet.Proofs.OperatorGrouping
