import Scriptlet.Node.Text
import Scriptlet.Proofs.GrammarReading
import Scriptlet.Proofs.QuotedText
import Scriptlet.Proofs.TokenRendering

/-! The text of a program tree is unambiguous. Whatever follows the text of a node, its first letters tell the kind of
the node, and each part tells where it ends, so the text determines the tree up to the places of its nodes. A string
constant may hold all the words and brackets that the text of a tree is made of. -/

namespace Scriptlet

/-- The number with its denominator written out. One that is left out counts as one. -/
def Number.settled (n : Number) : Number := { n with den := n.denominator }

def Value.settled : Value → Value
  | .number n => .number n.settled
  | v => v

namespace Node

mutual

/-- The tree with the denominators of all its numbers written out. -/
def settled : Node → Node
  | absent => absent
  | unknown p => unknown p
  | block p statements => block p (settledAll statements)
  | branch p condition action otherwise => branch p condition.settled action.settled otherwise.settled
  | loop p condition action => loop p condition.settled action.settled
  | .ret p value => .ret p value.settled
  | set p name value => set p name value.settled
  | get p name => get p name
  | const p value => const p value.settled
  | call p function arguments => call p function.settled (settledAll arguments)
  | member p base name => member p base.settled name

def settledAll : List Node → List Node
  | [] => []
  | node :: nodes => node.settled :: settledAll nodes

end

end Node
end Scriptlet

namespace Scriptlet.Proofs.TreeText
open Node TokenRendering QuotedText

/-- The constants that the text of a tree shows completely. -/
inductive Shown : Value → Prop where
  | empty : Shown .empty
  | bool (b : Bool) : Shown (.bool b)
  | number {n : Number} (whole : n.isInteger = true) : Shown (.number n)
  | string (s : String) : Shown (.string s)

/-- A tree that has all its parts, except that an `if` may be without an `else`. Its names are words of letters, digits
and underscores. -/
inductive Legible : Node → Prop where
  | unknown (p : Position) : Legible (.unknown p)
  | block {p nodes} (statements : ∀ node ∈ nodes, Legible node) : Legible (.block p nodes)
  | branch {p test action} (condition : Legible test) (holds : Legible action) :
      Legible (.branch p test action .absent)
  | choice {p test action otherwise} (condition : Legible test) (holds : Legible action)
      (fails : Legible otherwise) : Legible (.branch p test action otherwise)
  | loop {p test action} (condition : Legible test) (holds : Legible action) : Legible (.loop p test action)
  | ret {p value} (given : Legible value) : Legible (.ret p value)
  | set {p name value} (named : IsName name.toList) (given : Legible value) : Legible (.set p name value)
  | get {p name} (named : IsName name.toList) : Legible (.get p name)
  | const {p v} (shown : Shown v) : Legible (.const p v)
  | call {p function arguments} (callee : Legible function) (given : ∀ node ∈ arguments, Legible node) :
      Legible (.call p function arguments)
  | member {p base name} (whole : Legible base) (named : IsName name.toList) : Legible (.member p base name)

section Words
variable {first second rest others : List Char}

private theorem word_cancel {p : Char → Bool} {c : Char} (all : ∀ d ∈ first, p d = true)
    (all' : ∀ d ∈ second, p d = true)
    (stop : p c = false) (same : first ++ c :: rest = second ++ c :: others) : first = second ∧ rest = others := by
  have front := congrArg (List.takeWhile p) same
  simp only [List.takeWhile_append_of_pos all, List.takeWhile_append_of_pos all', List.takeWhile_cons, stop] at front
  obtain rfl : first = second := by simpa using front
  exact ⟨rfl, (List.cons.inj (List.append_cancel_left same)).2⟩

private theorem name_cancel {name other : String} {c : Char} (named : IsName name.toList) (named' : IsName other.toList)
    (stop : Scan.continuesWord c = false) (same : name.toList ++ c :: rest = other.toList ++ c :: others) :
    name = other ∧ rest = others := by
  have all := List.all_eq_true.mp (isName_iff.mp named).2
  have all' := List.all_eq_true.mp (isName_iff.mp named').2
  obtain ⟨chars, later⟩ := word_cancel all all' stop same
  exact ⟨String.toList_inj.mp chars, later⟩

end Words

section Constants

private theorem integer_text {n : Number} (whole : n.isInteger = true) :
    n.text = (if n.negative then "-" else "") ++ n.num.repr := by
  rw [Number.text, whole]
  rfl

private theorem repr_isDigit {n : Nat} : ∀ c ∈ n.repr.toList, c.isDigit = true := by
  intro c member
  rw [Nat.repr_eq_ofList_toDigits, String.toList_ofList] at member
  exact Nat.isDigit_of_mem_toDigits (by decide) (by decide) member

/-- The characters of a whole number. -/
theorem integer_chars {n : Number} (whole : n.isInteger = true) :
    ∀ c ∈ n.text.toList, c.isDigit = true ∨ c = '-' := by
  intro c member
  rw [integer_text whole, String.toList_append, List.mem_append] at member
  rcases member with sign | digit
  · split at sign
    · exact Or.inr (by simpa using sign)
    · simp at sign
  · exact Or.inl (repr_isDigit c digit)

private theorem integer_settled {n : Number} (whole : n.isInteger = true) : n.settled = ⟨n.num, 1, n.negative⟩ := by
  rw [Number.settled, eq_of_beq whole]

private theorem repr_unsigned {m n : Nat} : m.repr.toList ≠ '-' :: n.repr.toList := by
  intro signed
  have digit := repr_isDigit (n := m) '-' (signed ▸ List.mem_cons_self)
  cases digit

private theorem repr_inj {m n : Nat} (same : m.repr.toList = n.repr.toList) : m = n := by
  rw [Nat.repr_eq_ofList_toDigits, Nat.repr_eq_ofList_toDigits, String.toList_ofList, String.toList_ofList] at same
  have read := congrArg (fun digits => Nat.ofDigitChars 10 digits 0) same
  simpa using read

private theorem signed_inj {negative other : Bool} {m n : Nat}
    (same : (if negative then "-" else "") ++ m.repr = (if other then "-" else "") ++ n.repr) :
    negative = other ∧ m = n := by
  have chars := congrArg String.toList same
  rw [String.toList_append, String.toList_append] at chars
  cases negative with
  | true =>
    cases other with
    | true => exact ⟨rfl, repr_inj (List.append_cancel_left chars)⟩
    | false => exact absurd chars.symm repr_unsigned
  | false =>
    cases other with
    | true => exact absurd chars repr_unsigned
    | false => exact ⟨rfl, repr_inj chars⟩

private theorem settled_eq_of_text {m n : Number} (whole : m.isInteger = true) (whole' : n.isInteger = true)
    (same : m.text = n.text) : m.settled = n.settled := by
  rw [integer_text whole, integer_text whole'] at same
  obtain ⟨signs, nums⟩ := signed_inj same
  rw [integer_settled whole, integer_settled whole', signs, nums]

/-- The constants with a word of their own. -/
def worded : List Value := [.empty, .bool true, .bool false]

/-- The constants that are shown without quotes. -/
inductive Unquoted : Value → Prop where
  | word {v : Value} (member : v ∈ worded) : Unquoted v
  | number {n : Number} (whole : n.isInteger = true) : Unquoted (.number n)

theorem Shown.string_or_unquoted {v : Value} (shown : Shown v) : (∃ s, v = .string s) ∨ Unquoted v := by
  cases shown with
  | empty => exact Or.inr (.word (by decide))
  | bool b => exact Or.inr (.word (by cases b <;> decide))
  | number whole => exact Or.inr (.number whole)
  | string s => exact Or.inl ⟨s, rfl⟩

/-- The characters of a constant without quotes. -/
def isUnquotedChar (c : Char) : Bool := c.isAlphanum || c == '-'

theorem Unquoted.plain {v : Value} (unquoted : Unquoted v) : ∀ c ∈ (constText v).toList, isUnquotedChar c = true := by
  cases unquoted with
  | word member =>
    have all : ∀ v ∈ worded, (constText v).toList.all isUnquotedChar = true := by decide
    exact List.all_eq_true.mp (all v member)
  | number whole =>
    intro c member
    rcases integer_chars whole c member with digit | rfl
    · simp [isUnquotedChar, Char.isAlphanum, digit]
    · rfl

/-- There is a letter in each of the words, but none in a number. -/
theorem worded_ne_integer {v : Value} (member : v ∈ worded) {n : Number} (whole : n.isInteger = true) :
    constText v ≠ n.text := by
  intro same
  have letter : ∀ v ∈ worded, 'e' ∈ (constText v).toList := by decide
  have inside := letter v member
  rw [same] at inside
  rcases integer_chars whole 'e' inside with digit | sign
  · cases digit
  · cases sign

theorem Unquoted.settled_eq {v w : Value} (unquoted : Unquoted v) (unquoted' : Unquoted w)
    (same : constText v = constText w) : v.settled = w.settled := by
  cases unquoted with
  | word member =>
    cases unquoted' with
    | word member' =>
      have apart : ∀ v ∈ worded, ∀ w ∈ worded, constText v = constText w → v = w := by decide
      exact congrArg Value.settled (apart v member w member' same)
    | number whole => exact absurd same (worded_ne_integer member whole)
  | number whole =>
    cases unquoted' with
    | word member' => exact absurd same.symm (worded_ne_integer member' whole)
    | number whole' => exact congrArg Value.number (settled_eq_of_text whole whole' same)

private theorem constText_string (s : String) (rest : List Char) :
    (constText (.string s)).toList ++ rest = '"' :: (s.toList.flatMap (Text.escape '"') ++ '"' :: rest) := by
  simp [constText, Text.quote]

theorem Unquoted.ne_quote {v : Value} (unquoted : Unquoted v) {rest others : List Char} :
    (constText v).toList ++ ')' :: rest ≠ '"' :: others := by
  intro same
  have plain := unquoted.plain
  generalize (constText v).toList = chars at same plain
  cases chars with
  | nil => cases same
  | cons c chars =>
    cases same
    cases plain '"' List.mem_cons_self

/-- A constant is told apart from all others by its text, and so is where it ends. -/
theorem constant_cancel {v w : Value} (shown : Shown v) (shown' : Shown w) {rest others : List Char}
    (same : (constText v).toList ++ ')' :: rest = (constText w).toList ++ ')' :: others) :
    v.settled = w.settled ∧ rest = others := by
  rcases shown.string_or_unquoted with ⟨s, rfl⟩ | unquoted
  · rw [constText_string] at same
    rcases shown'.string_or_unquoted with ⟨t, rfl⟩ | unquoted'
    · rw [constText_string] at same
      obtain ⟨contents, later⟩ := quoted_cancel (List.cons.inj same).2
      exact ⟨congrArg (fun s => Value.settled (.string s)) (String.toList_inj.mp contents), (List.cons.inj later).2⟩
    · exact absurd same.symm unquoted'.ne_quote
  · rcases shown'.string_or_unquoted with ⟨t, rfl⟩ | unquoted'
    · rw [constText_string] at same
      exact absurd same unquoted.ne_quote
    · obtain ⟨texts, later⟩ := word_cancel unquoted.plain unquoted'.plain rfl same
      exact ⟨unquoted.settled_eq unquoted' (String.toList_inj.mp texts), later⟩

end Constants

/-- The tree as far as its text shows it: without its places, and with the denominators of its numbers written out. -/
def bare (node : Node) : Node := node.settled.unplaced

/-- The text of a node that has one. -/
def wording (node : Node) : String := node.text.getD ""

def chars (node : Node) : List Char := (wording node).toList

section Writing
variable {p : Position} {nodes : List Node} {node test action otherwise : Node} {name : String}

private theorem texts_wording (spoken : ∀ node ∈ nodes, node.text.isSome = true) :
    texts nodes = some (nodes.map wording) := by
  induction nodes with
  | nil => rfl
  | cons node nodes ih =>
    obtain ⟨first, spoken⟩ := List.forall_mem_cons.mp spoken
    obtain ⟨words, written⟩ := Option.isSome_iff_exists.mp first
    change (text node).bind (fun first => (texts nodes).map (first :: ·)) = _
    rw [ih spoken, written, List.map_cons, wording, written]
    rfl

theorem Legible.spoken (legible : Legible node) : node.text.isSome = true := by
  induction legible with
  | block _ spoken => exact Option.isSome_map.trans (texts_wording spoken ▸ rfl)
  | call _ _ _ spoken => exact Option.isSome_map.trans (texts_wording spoken ▸ rfl)
  | _ => rfl

theorem Legible.present (legible : Legible node) : node.isAbsent = false := by
  cases legible <;> rfl

/-- A part that has a text is written out inside its whole. -/
theorem Legible.partText (legible : Legible node) : partText node node.text = wording node := by
  obtain ⟨text, written⟩ := Option.isSome_iff_exists.mp legible.spoken
  rw [Node.partText, legible.present, if_neg Bool.false_ne_true, wording, written]
  rfl

/-- Nodes with a separator between two of them, and a closing bracket behind them. -/
def listed (separator : String) (nodes : List Node) (rest : List Char) : List Char :=
  separator.toList.intercalate (nodes.map chars) ++ ']' :: rest

private theorem intercalate_wording (separator : String) :
    (separator.intercalate (nodes.map wording)).toList = separator.toList.intercalate (nodes.map chars) := by
  rw [String.toList_intercalate, List.map_map]
  rfl

variable (rest : List Char)

private theorem chars_block (statements : ∀ node ∈ nodes, Legible node) :
    chars (.block p nodes) ++ rest = "Block[".toList ++ listed "; " nodes rest := by
  change (((texts nodes).map fun parts => "Block[" ++ "; ".intercalate parts ++ "]").getD "").toList ++ rest = _
  rw [texts_wording fun node member => (statements node member).spoken]
  simp only [Option.map_some, Option.getD_some, String.toList_append, intercalate_wording, List.append_assoc, listed]
  rfl

private theorem chars_branch (condition : Legible test) (holds : Legible action) :
    chars (.branch p test action .absent) ++ rest =
      "If(".toList ++ (chars test ++ (", ".toList ++ (chars action ++ ')' :: rest))) := by
  change ("If(" ++ partText test test.text ++ ", " ++ partText action action.text ++ "" ++ ")").toList ++ rest = _
  simp only [condition.partText, holds.partText, String.toList_append, List.append_assoc]
  rfl

private theorem chars_choice (condition : Legible test) (holds : Legible action) (fails : Legible otherwise) :
    chars (.branch p test action otherwise) ++ rest = "If(".toList ++ (chars test ++ (", ".toList ++ (chars action ++
      (", else ".toList ++ (chars otherwise ++ ')' :: rest))))) := by
  change ("If(" ++ partText test test.text ++ ", " ++ partText action action.text ++
    (if otherwise.isAbsent then "" else ", else " ++ partText otherwise otherwise.text) ++ ")").toList ++ rest = _
  rw [condition.partText, holds.partText, fails.partText, fails.present]
  simp only [Bool.false_eq_true, if_false, String.toList_append, List.append_assoc]
  rfl

private theorem chars_loop (condition : Legible test) (holds : Legible action) : chars (.loop p test action) ++ rest =
    "While(".toList ++ (chars test ++ (", ".toList ++ (chars action ++ ')' :: rest))) := by
  change ("While(" ++ partText test test.text ++ ", " ++ partText action action.text ++ ")").toList ++ rest = _
  simp only [condition.partText, holds.partText, String.toList_append, List.append_assoc]
  rfl

private theorem chars_ret (given : Legible node) :
    chars (.ret p node) ++ rest = "Return(".toList ++ (chars node ++ ')' :: rest) := by
  change ("Return(" ++ partText node node.text ++ ")").toList ++ rest = _
  simp only [given.partText, String.toList_append, List.append_assoc]
  rfl

private theorem chars_set (given : Legible node) : chars (.set p name node) ++ rest =
    "Set(".toList ++ (name.toList ++ ',' :: ' ' :: (chars node ++ ')' :: rest)) := by
  change ("Set(" ++ name ++ ", " ++ partText node node.text ++ ")").toList ++ rest = _
  simp only [given.partText, String.toList_append, List.append_assoc]
  rfl

private theorem chars_get : chars (.get p name) ++ rest = "Get(".toList ++ (name.toList ++ ')' :: rest) := by
  change ("Get(" ++ name ++ ")").toList ++ rest = _
  simp only [String.toList_append, List.append_assoc]
  rfl

private theorem chars_const (v : Value) :
    chars (.const p v) ++ rest = "Const(".toList ++ ((constText v).toList ++ ')' :: rest) := by
  change ("Const(" ++ constText v ++ ")").toList ++ rest = _
  simp only [String.toList_append, List.append_assoc]
  rfl

private theorem chars_call (callee : Legible node) (given : ∀ node ∈ nodes, Legible node) :
    chars (.call p node nodes) ++ rest =
      "Call(".toList ++ (chars node ++ (", [".toList ++ listed ", " nodes (')' :: rest))) := by
  change (((texts nodes).map fun parts =>
    "Call(" ++ partText node node.text ++ ", [" ++ ", ".intercalate parts ++ "])").getD "").toList ++ rest = _
  rw [callee.partText, texts_wording fun node member => (given node member).spoken]
  simp only [Option.map_some, Option.getD_some, String.toList_append, intercalate_wording, List.append_assoc, listed]
  rfl

private theorem chars_member (whole : Legible node) : chars (.member p node name) ++ rest =
    "Member(".toList ++ (chars node ++ (", ".toList ++ (name.toList ++ ')' :: rest))) := by
  change ("Member(" ++ partText node node.text ++ ", " ++ name ++ ")").toList ++ rest = _
  simp only [whole.partText, String.toList_append, List.append_assoc]
  rfl

end Writing

section Initials
variable {node other : Node} {rest others : List Char}

/-- The first letters of a node's text, which are others for every kind of node. -/
def initials : Node → List Char
  | .absent => []
  | .unknown _ => ['S', 't']
  | .block .. => ['B', 'l']
  | .branch .. => ['I', 'f']
  | .loop .. => ['W', 'h']
  | .ret .. => ['R', 'e']
  | .set .. => ['S', 'e']
  | .get .. => ['G', 'e']
  | .const .. => ['C', 'o']
  | .call .. => ['C', 'a']
  | .member .. => ['M', 'e']

theorem Legible.take_chars (legible : Legible node) : (chars node ++ rest).take 2 = initials node := by
  cases legible with
  | unknown p => exact congrArg (List.take 2) (show chars (.unknown p) ++ rest = "Strange".toList ++ rest from rfl)
  | block statements =>
    rw [chars_block rest statements]
    rfl
  | branch condition holds =>
    rw [chars_branch rest condition holds]
    rfl
  | choice condition holds fails =>
    rw [chars_choice rest condition holds fails]
    rfl
  | loop condition holds =>
    rw [chars_loop rest condition holds]
    rfl
  | ret given =>
    rw [chars_ret rest given]
    rfl
  | set named given =>
    rw [chars_set rest given]
    rfl
  | get named =>
    rw [chars_get]
    rfl
  | const shown =>
    rw [chars_const]
    rfl
  | call callee given =>
    rw [chars_call rest callee given]
    rfl
  | member whole named =>
    rw [chars_member rest whole]
    rfl

private theorem initials_eq (legible : Legible node) (legible' : Legible other)
    (same : chars node ++ rest = chars other ++ others) : initials node = initials other := by
  rw [← legible.take_chars, ← legible'.take_chars, same]

theorem Legible.ne_close (legible : Legible node) : chars node ++ rest ≠ ']' :: others := by
  intro same
  have letters : (']' :: others).take 2 = initials node := same ▸ legible.take_chars
  cases legible <;> cases letters

end Initials

/-- The text of a node tells the node and where its text ends, whatever follows. -/
def Told (node : Node) : Prop := ∀ {other : Node} {rest others : List Char}, Legible other →
  chars node ++ rest = chars other ++ others → bare node = bare other ∧ rest = others

section Lists
variable {separator : String} {nodes others : List Node} {rest more : List Char}

/-- The nodes behind the first one, each with a separator in front of it. -/
def further (separator : String) (nodes : List Node) (rest : List Char) : List Char :=
  nodes.flatMap (fun node => separator.toList ++ chars node) ++ ']' :: rest

private theorem listed_cons (node : Node) :
    listed separator (node :: nodes) rest = chars node ++ further separator nodes rest := by
  induction nodes generalizing node with
  | nil => simp [listed, further]
  | cons next nodes ih =>
    have later := ih next
    simp only [listed, further, List.map_cons, List.intercalate_cons_cons, List.flatMap_cons,
      List.append_assoc] at later ⊢
    rw [later]

private theorem further_cancel (parted : ∃ c text, separator.toList = c :: text ∧ c ≠ ']') (told :
    ∀ node ∈ nodes, Told node)
    (legible : ∀ other ∈ others, Legible other) (same : further separator nodes rest = further separator others more) :
    nodes.map bare = others.map bare ∧ rest = more := by
  obtain ⟨c, text, split, apart⟩ := parted
  induction nodes generalizing others with
  | nil =>
    cases others with
    | nil => exact ⟨rfl, (List.cons.inj same).2⟩
    | cons other others =>
      rw [further, further, List.flatMap_cons, split] at same
      exact absurd (List.cons.inj same).1.symm apart
  | cons node nodes ih =>
    cases others with
    | nil =>
      rw [further, further, List.flatMap_cons, split] at same
      exact absurd (List.cons.inj same).1 apart
    | cons other others =>
      obtain ⟨first, told⟩ := List.forall_mem_cons.mp told
      obtain ⟨legibleFirst, legible⟩ := List.forall_mem_cons.mp legible
      simp only [further, List.flatMap_cons, List.append_assoc] at same
      obtain ⟨alike, later⟩ := first legibleFirst (List.append_cancel_left same)
      obtain ⟨rest, ended⟩ := ih told legible later
      rw [List.map_cons, List.map_cons, alike, rest]
      exact ⟨rfl, ended⟩

private theorem listed_cancel (parted : ∃ c text, separator.toList = c :: text ∧ c ≠ ']') (told :
    ∀ node ∈ nodes, Told node)
    (legible : ∀ node ∈ nodes, Legible node) (legible' : ∀ other ∈ others, Legible other)
    (same : listed separator nodes rest = listed separator others more) :
    nodes.map bare = others.map bare ∧ rest = more := by
  cases nodes with
  | nil =>
    cases others with
    | nil => exact ⟨rfl, (List.cons.inj same).2⟩
    | cons other others =>
      rw [listed_cons] at same
      exact absurd same.symm (legible' other List.mem_cons_self).ne_close
  | cons node nodes =>
    rw [listed_cons] at same
    cases others with
    | nil => exact absurd same (legible node List.mem_cons_self).ne_close
    | cons other others =>
      rw [listed_cons] at same
      obtain ⟨first, told⟩ := List.forall_mem_cons.mp told
      obtain ⟨legibleFirst, legible'⟩ := List.forall_mem_cons.mp legible'
      obtain ⟨alike, later⟩ := first legibleFirst same
      obtain ⟨rest, ended⟩ := further_cancel parted told legible' later
      rw [List.map_cons, List.map_cons, alike, rest]
      exact ⟨rfl, ended⟩

end Lists

private theorem settledAll_eq_map (nodes : List Node) : settledAll nodes = nodes.map settled := by
  induction nodes with
  | nil => rfl
  | cons node nodes ih => exact congrArg (node.settled :: ·) ih

/-- The parts of a list are seen one by one. -/
theorem unplacedAll_settledAll (nodes : List Node) : unplacedAll (settledAll nodes) = nodes.map bare := by
  rw [unplacedAll_eq_map, settledAll_eq_map, List.map_map]
  rfl

section Nodes
variable {p : Position} {nodes : List Node} {node test action otherwise : Node} {name : String} {v : Value}

private theorem bare_block : bare (.block p nodes) = .block {} (nodes.map bare) :=
  congrArg (Node.block {}) (unplacedAll_settledAll nodes)

private theorem bare_call : bare (.call p node nodes) = .call {} (bare node) (nodes.map bare) :=
  congrArg (Node.call {} (bare node)) (unplacedAll_settledAll nodes)

private theorem bare_branch :
    bare (.branch p test action otherwise) = .branch {} (bare test) (bare action) (bare otherwise) := rfl

private theorem bare_loop : bare (.loop p test action) = .loop {} (bare test) (bare action) := rfl

private theorem bare_ret : bare (.ret p node) = .ret {} (bare node) := rfl

private theorem bare_set : bare (.set p name node) = .set {} name (bare node) := rfl

private theorem bare_const : bare (.const p v) = .const {} v.settled := rfl

private theorem bare_member : bare (.member p node name) = .member {} (bare node) name := rfl

private theorem told_unknown : Told (.unknown p) := by
  intro other rest others legible same
  have letters := initials_eq (.unknown p) legible same
  cases legible with
  | unknown q => exact ⟨rfl, List.append_cancel_left same⟩
  | _ => cases letters

private theorem told_block (statements : ∀ node ∈ nodes, Legible node) (told : ∀ node ∈ nodes, Told node) :
    Told (.block p nodes) := by
  intro other rest others legible same
  have letters := initials_eq (.block statements) legible same
  cases legible with
  | block statements' =>
    rw [chars_block rest statements, chars_block others statements'] at same
    obtain ⟨alike, ended⟩ :=
      listed_cancel ⟨';', [' '], rfl, by decide⟩ told statements statements' (List.append_cancel_left same)
    exact ⟨by rw [bare_block, bare_block, alike], ended⟩
  | _ => cases letters

/-- Two nodes with a comma between them. -/
theorem pair_cancel {condition consequence : Node} {rest others : List Char} (told : Told test) (told' : Told action)
    (legible : Legible condition) (legible' : Legible consequence)
    (same : chars test ++ (", ".toList ++ (chars action ++ rest)) =
      chars condition ++ (", ".toList ++ (chars consequence ++ others))) :
    bare test = bare condition ∧ bare action = bare consequence ∧ rest = others := by
  obtain ⟨first, later⟩ := told legible same
  exact ⟨first, told' legible' (List.append_cancel_left later)⟩

private theorem told_branch (condition : Legible test) (holds : Legible action) (told : Told test)
    (told' : Told action) :
    Told (.branch p test action .absent) := by
  intro other rest others legible same
  have letters := initials_eq (.branch condition holds) legible same
  rw [chars_branch rest condition holds] at same
  cases legible with
  | branch condition' holds' =>
    rw [chars_branch others condition' holds'] at same
    obtain ⟨first, second, ended⟩ := pair_cancel told told' condition' holds' (List.append_cancel_left same)
    exact ⟨by rw [bare_branch, bare_branch, first, second], (List.cons.inj ended).2⟩
  | choice condition' holds' fails =>
    rw [chars_choice others condition' holds' fails] at same
    obtain ⟨_, _, ended⟩ := pair_cancel told told' condition' holds' (List.append_cancel_left same)
    cases ended
  | _ => cases letters

private theorem told_choice (condition : Legible test) (holds : Legible action) (fails : Legible otherwise)
    (told : Told test)
    (told' : Told action) (told'' : Told otherwise) : Told (.branch p test action otherwise) := by
  intro other rest others legible same
  have letters := initials_eq (.choice condition holds fails) legible same
  rw [chars_choice rest condition holds fails] at same
  cases legible with
  | branch condition' holds' =>
    rw [chars_branch others condition' holds'] at same
    obtain ⟨_, _, ended⟩ := pair_cancel told told' condition' holds' (List.append_cancel_left same)
    cases ended
  | choice condition' holds' fails' =>
    rw [chars_choice others condition' holds' fails'] at same
    obtain ⟨first, second, later⟩ := pair_cancel told told' condition' holds' (List.append_cancel_left same)
    obtain ⟨third, ended⟩ := told'' fails' (List.append_cancel_left later)
    exact ⟨by rw [bare_branch, bare_branch, first, second, third], (List.cons.inj ended).2⟩
  | _ => cases letters

private theorem told_loop (condition : Legible test) (holds : Legible action) (told : Told test) (told' : Told action) :
    Told (.loop p test action) := by
  intro other rest others legible same
  have letters := initials_eq (.loop condition holds) legible same
  cases legible with
  | loop condition' holds' =>
    rw [chars_loop rest condition holds, chars_loop others condition' holds'] at same
    obtain ⟨first, second, ended⟩ := pair_cancel told told' condition' holds' (List.append_cancel_left same)
    exact ⟨by rw [bare_loop, bare_loop, first, second], (List.cons.inj ended).2⟩
  | _ => cases letters

private theorem told_ret (given : Legible node) (told : Told node) : Told (.ret p node) := by
  intro other rest others legible same
  have letters := initials_eq (.ret given) legible same
  cases legible with
  | ret given' =>
    rw [chars_ret rest given, chars_ret others given'] at same
    obtain ⟨alike, ended⟩ := told given' (List.append_cancel_left same)
    exact ⟨by rw [bare_ret, bare_ret, alike], (List.cons.inj ended).2⟩
  | _ => cases letters

private theorem told_set (named : IsName name.toList) (given : Legible node) (told : Told node) :
    Told (.set p name node) := by
  intro other rest others legible same
  have letters := initials_eq (.set named given) legible same
  cases legible with
  | set named' given' =>
    rw [chars_set rest given, chars_set others given'] at same
    obtain ⟨rfl, later⟩ := name_cancel named named' rfl (List.append_cancel_left same)
    obtain ⟨alike, ended⟩ := told given' (List.cons.inj later).2
    exact ⟨by rw [bare_set, bare_set, alike], (List.cons.inj ended).2⟩
  | _ => cases letters

private theorem told_get (named : IsName name.toList) : Told (.get p name) := by
  intro other rest others legible same
  have letters := initials_eq (.get named) legible same
  cases legible with
  | get named' =>
    rw [chars_get, chars_get] at same
    obtain ⟨rfl, ended⟩ := name_cancel named named' rfl (List.append_cancel_left same)
    exact ⟨rfl, ended⟩
  | _ => cases letters

private theorem told_const (shown : Shown v) : Told (.const p v) := by
  intro other rest others legible same
  have letters := initials_eq (.const shown) legible same
  cases legible with
  | const shown' =>
    rw [chars_const, chars_const] at same
    obtain ⟨alike, ended⟩ := constant_cancel shown shown' (List.append_cancel_left same)
    exact ⟨by rw [bare_const, bare_const, alike], ended⟩
  | _ => cases letters

private theorem told_call (callee : Legible node) (given : ∀ node ∈ nodes, Legible node) (told : Told node)
    (all : ∀ node ∈ nodes, Told node) : Told (.call p node nodes) := by
  intro other rest others legible same
  have letters := initials_eq (.call callee given) legible same
  cases legible with
  | call callee' given' =>
    rw [chars_call rest callee given, chars_call others callee' given'] at same
    obtain ⟨first, later⟩ := told callee' (List.append_cancel_left same)
    obtain ⟨alike, ended⟩ :=
      listed_cancel ⟨',', [' '], rfl, by decide⟩ all given given' (List.append_cancel_left later)
    exact ⟨by rw [bare_call, bare_call, first, alike], (List.cons.inj ended).2⟩
  | _ => cases letters

private theorem told_member (whole : Legible node) (named : IsName name.toList) (told : Told node) :
    Told (.member p node name) := by
  intro other rest others legible same
  have letters := initials_eq (.member whole named) legible same
  cases legible with
  | member whole' named' =>
    rw [chars_member rest whole, chars_member others whole'] at same
    obtain ⟨alike, later⟩ := told whole' (List.append_cancel_left same)
    obtain ⟨rfl, ended⟩ := name_cancel named named' rfl (List.append_cancel_left later)
    exact ⟨by rw [bare_member, bare_member, alike], ended⟩
  | _ => cases letters

private theorem told_of_legible (legible : Legible node) : Told node := by
  induction legible with
  | unknown p => exact told_unknown
  | block statements told => exact told_block statements told
  | branch condition holds told told' => exact told_branch condition holds told told'
  | choice condition holds fails told told' told'' => exact told_choice condition holds fails told told' told''
  | loop condition holds told told' => exact told_loop condition holds told told'
  | ret given told => exact told_ret given told
  | set named given told => exact told_set named given told
  | get named => exact told_get named
  | const shown => exact told_const shown
  | call callee given told all => exact told_call callee given told all
  | member whole named told => exact told_member whole named told

end Nodes

/-- The text of a tree determines the tree up to places, if all its parts are there, its names are words and its
constants are nothing, truth values, whole numbers or strings. What a string says does not matter. A number whose
denominator is left out has the same text as one over one, so all denominators are written out before trees are
compared. -/
theorem text_determines_tree (node other : Node) (legible : Legible node) (legible' : Legible other)
    (same : node.text = other.text) : node.settled.unplaced = other.settled.unplaced := by
  have chars : chars node ++ [] = chars other ++ [] :=
    congrArg (fun text : Option String => (text.getD "").toList ++ []) same
  exact (told_of_legible legible legible' chars).1

/-- An assignment of a choice, with a string that reads like the rest of a tree's text. -/
def sampleTree (p : Position) (n : Number) : Node :=
  .set p "x" (.branch p (.get p "ready") (.call p (.get p "show") [.const p (.string "), else Get(y)]")])
    (.const p (.number n)))

theorem sampleTree_told_by_text :
    (sampleTree ⟨1, 1⟩ .unset).text =
      some "Set(x, If(Get(ready), Call(Get(show), [Const(\"), else Get(y)]\")]), else Const(0)))" ∧
    (sampleTree ⟨1, 1⟩ .unset).settled.unplaced = (sampleTree ⟨7, 3⟩ .zero).settled.unplaced := by
  have named (name : String) (letters : name.toList.head?.any Scan.startsWord = true ∧
      name.toList.all Scan.continuesWord = true) : IsName name.toList := isName_iff.mpr letters
  have legible (p : Position) (n : Number) (whole : n.isInteger = true) : Legible (sampleTree p n) := by
    have action : ∀ node ∈ [Node.const p (.string "), else Get(y)]")], Legible node :=
      List.forall_mem_singleton.mpr (.const (.string _))
    exact .set (named "x" (by decide)) (.choice (.get (named "ready" (by decide)))
      (.call (.get (named "show" (by decide))) action) (.const (.number whole)))
  refine ⟨by decide +kernel, ?_⟩
  exact text_determines_tree _ _ (legible _ _ rfl) (legible _ _ rfl) (by decide +kernel)

end Scriptlet.Proofs.TreeText
