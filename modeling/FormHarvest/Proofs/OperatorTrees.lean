import FormHarvest.Php.Parser
import FormHarvest.Proofs.Lexemes

namespace FormHarvest

deriving instance DecidableEq for Binding

/-! ### Operators -/

/-- The operators between two operands with their bindings. All assignments bind alike. -/
def operatorBindings : List (String × Binding) :=
  signBindings ++ wordBindings ++ assignmentOperators.map fun text => (text, ⟨assignmentPrecedence, true⟩)

/-- An operator between two operands. -/
structure LinkOperator where
  text : String
  binding : Binding
  listed : (text, binding) ∈ operatorBindings

/-- An operator before its operand. -/
structure PrefixOperator where
  text : String
  listed : text ∈ unaryOperators

/-- The binding of the choice between two operands, whose middle operand is delimited by its signs. -/
def choiceBinding : Binding := ⟨ternaryPrecedence, false⟩

/-- The bindings of all that stands between two operands. -/
def linkBindings : List Binding := choiceBinding :: operatorBindings.map (·.2)

/-- How tightly operators before an operand bind: tighter than all others. -/
def tightest : Nat := 21

namespace Binding

variable (binding : Binding)

/-- How tightly the operand before an operator has to bind. -/
def leftLeast : Nat := if binding.rightAssociative then binding.precedence + 1 else binding.precedence

/-- How tightly the operand behind an operator has to bind. -/
def rightLeast : Nat := if binding.rightAssociative then binding.precedence else binding.precedence + 1

theorem precedence_le_leftLeast : binding.precedence ≤ binding.leftLeast := by
  unfold leftLeast
  split <;> omega

theorem precedence_le_rightLeast : binding.precedence ≤ binding.rightLeast := by
  unfold rightLeast
  split <;> omega

end Binding

theorem LinkOperator.mem_linkBindings (operator : LinkOperator) : operator.binding ∈ linkBindings :=
  List.mem_cons_of_mem _ (List.mem_map_of_mem (f := Prod.snd) operator.listed)

/-! ### Trees -/

/-- The name of a variable without its dollar sign. -/
structure VariableName where
  first : Char
  others : List Char
  starts : isNameStart first = true
  goesOn : others.all isNamePart = true

namespace VariableName

def chars (name : VariableName) : List Char := name.first :: name.others

def text (name : VariableName) : String := String.ofList name.chars

end VariableName

/-- An expression that is built from variables with operators. -/
inductive OperatorTree where
  | var (name : VariableName)
  | prefixed (operator : PrefixOperator) (operand : OperatorTree)
  | binary (operator : LinkOperator) (left right : OperatorTree)
  | shortChoice (condition right : OperatorTree)
  | choice (condition middle right : OperatorTree)

/-- A token that means what is written, on the first line. -/
def writtenToken (kind : TokenKind) (text : String) : Token :=
  { kind, text, raw := text, line := 1, interpolated := false }

/-- The token of a variable on the first line. -/
def VariableName.token (name : VariableName) : Token :=
  { kind := .variable, text := name.text, raw := String.ofList ('$' :: name.chars), line := 1,
    interpolated := false }

/-- The token of an operator between two operands, which may be a word. -/
def linkToken (text : String) : Token :=
  writtenToken (if wordBindings.any (·.1 == text) then .name else .operator) text

def LinkOperator.token (operator : LinkOperator) : Token := linkToken operator.text

def PrefixOperator.token (operator : PrefixOperator) : Token := writtenToken .operator operator.text

def questionToken : Token := writtenToken .operator "?"

def colonToken : Token := writtenToken .operator ":"

def openToken : Token := writtenToken .punctuation "("

def closeToken : Token := writtenToken .punctuation ")"

def semicolonToken : Token := writtenToken .punctuation ";"

/-- Tokens in parentheses or without them. -/
def enclosed (inParentheses : Bool) (tokens : List Token) : List Token :=
  if inParentheses then openToken :: (tokens ++ [closeToken]) else tokens

namespace OperatorTree

/-- The binding of the operator whose operands a tree joins, if these stand on both sides of it. -/
def binding? : OperatorTree → Option Binding
  | .var _ | .prefixed _ _ => none
  | .binary operator _ _ => some operator.binding
  | .shortChoice _ _ | .choice _ _ _ => some choiceBinding

/-- How tightly a tree binds. -/
def precedence (tree : OperatorTree) : Nat := (tree.binding?.map Binding.precedence).getD tightest

/-- Whether a tree does not bind tightly enough to stand somewhere without parentheses. -/
def isLoose (least : Nat) (tree : OperatorTree) : Bool := tree.precedence < least

/-- The tokens of a tree. An operand is in parentheses exactly if its operator does not bind tightly
enough for its place. -/
def tokens : OperatorTree → List Token
  | .var name => [name.token]
  | .prefixed operator operand => operator.token :: enclosed (operand.isLoose tightest) operand.tokens
  | .binary operator left right =>
    enclosed (left.isLoose operator.binding.leftLeast) left.tokens ++
      operator.token :: enclosed (right.isLoose operator.binding.rightLeast) right.tokens
  | .shortChoice condition right =>
    enclosed (condition.isLoose choiceBinding.leftLeast) condition.tokens ++
      questionToken :: colonToken :: enclosed (right.isLoose choiceBinding.rightLeast) right.tokens
  | .choice condition middle right =>
    enclosed (condition.isLoose choiceBinding.leftLeast) condition.tokens ++
      questionToken :: (middle.tokens ++
        colonToken :: enclosed (right.isLoose choiceBinding.rightLeast) right.tokens)

/-- The tree of the parser, on the first line. -/
def node : OperatorTree → Node
  | .var name => .variable name.text { line := 1 }
  | .prefixed operator operand => .operation ("unary" ++ operator.text) [operand.node] { line := 1 }
  | .binary operator left right => .operation operator.text [left.node, right.node] { line := 1 }
  | .shortChoice condition right => .operation "?:" [condition.node, right.node] { line := 1 }
  | .choice condition middle right =>
    .operation "ternary" [condition.node, middle.node, right.node] { line := 1 }

/-- How deep a tree nests: what stands in parentheses, behind an operator or between the signs of a
choice lies one level deeper. -/
def nesting : OperatorTree → Nat
  | .var _ => 0
  | .prefixed _ operand => operand.nesting + (operand.isLoose tightest).toNat + 1
  | .binary operator left right =>
    max (left.nesting + (left.isLoose operator.binding.leftLeast).toNat)
      (right.nesting + (right.isLoose operator.binding.rightLeast).toNat + 1)
  | .shortChoice condition right =>
    max (condition.nesting + (condition.isLoose choiceBinding.leftLeast).toNat)
      (right.nesting + (right.isLoose choiceBinding.rightLeast).toNat + 1)
  | .choice condition middle right =>
    max (condition.nesting + (condition.isLoose choiceBinding.leftLeast).toNat)
      (max (middle.nesting + 1) (right.nesting + (right.isLoose choiceBinding.rightLeast).toNat + 1))

end OperatorTree

/-! ### Sources -/

/-- Tokens as they are written, with a blank between two of them. -/
def blankSeparated : List Token → List Char
  | [] => []
  | [last] => last.raw.toList
  | token :: rest => token.raw.toList ++ ' ' :: blankSeparated rest

/-- A source that holds nothing but a tree as a statement. -/
def OperatorTree.source (tree : OperatorTree) : String :=
  String.ofList (['<', '?', 'p', 'h', 'p'] ++ ([' '] ++ blankSeparated (tree.tokens ++ [semicolonToken])))

/-- A token of the first line that the lexer reads again when a blank or nothing comes behind it, and
that the parser reads as well. -/
structure Token.IsPlain (token : Token) : Prop where
  filled : token.raw.toList ≠ []
  dark : ∀ c ∈ token.raw.toList.head?, isBlank c = false
  oneLine : '\n' ∉ token.raw.toList
  line : token.line = 1
  known : token.interpolated = false
  matters : significantTokens [token] = [token]
  scanned {rest : List Char} (ends : ∀ c ∈ rest.head?, c = ' ') :
    scanPhp (token.raw.toList ++ rest) =
      .ok ⟨token.raw.toList.length, some { kind := token.kind, text := token.text.toList }, .php⟩

/-- The end of the text or a blank ends each operator. -/
theorem scanPhp_operator {text : String} (listed : text ∈ operators) {rest : List Char}
    (ends : ∀ c ∈ rest.head?, c = ' ') :
    scanPhp (text.toList ++ rest) =
      .ok ⟨text.toList.length, some { kind := .operator, text := text.toList }, .php⟩ := by
  cases rest with
  | nil => fin_cases listed <;> rfl
  | cons c rest =>
    obtain rfl : c = ' ' := ends c rfl
    fin_cases listed <;> rfl

/-- Whether a text starts with a character that is no blank and stays on its line. -/
def isInline (text : String) : Bool :=
  text.toList.head?.any (fun c => !isBlank c) && !text.toList.contains '\n'

theorem isPlain_writtenToken {kind : TokenKind} {text : String} (inLine : isInline text = true)
    (matters : kind ∈ [TokenKind.operator, .name, .punctuation])
    (scanned : ∀ {rest : List Char}, (∀ c ∈ rest.head?, c = ' ') → scanPhp (text.toList ++ rest) =
      .ok ⟨text.toList.length, some { kind, text := text.toList }, .php⟩) :
    (writtenToken kind text).IsPlain := by
  simp only [isInline, Bool.and_eq_true, Bool.not_eq_true', List.contains_eq_mem,
    decide_eq_false_iff_not, Option.any_eq_true] at inLine
  obtain ⟨⟨c, first, dark⟩, oneLine⟩ := inLine
  refine ⟨?_, ?_, oneLine, rfl, rfl, by fin_cases matters <;> rfl, scanned⟩
  · rintro (empty : text.toList = [])
    rw [empty] at first
    cases first
  · rintro d (other : d ∈ text.toList.head?)
    rw [first] at other
    obtain rfl : c = d := by simpa using other
    exact dark

theorem isPlain_operator {text : String} (listed : text ∈ operators) :
    (writtenToken .operator text).IsPlain := by
  have all : operators.all isInline = true := by decide
  exact isPlain_writtenToken (List.all_eq_true.mp all text listed) (by decide) (scanPhp_operator listed)

theorem Identifier.isPlain (name : Identifier) : (writtenToken .name name.text).IsPlain := by
  have word : ∀ c ∈ name.chars, isAsciiWord c = true := by
    simpa [Identifier.chars, name.isAsciiWord_first] using name.goesOn
  refine ⟨by simp [writtenToken, text, chars], ?_, ?_, rfl, rfl, rfl, fun ends => ?_⟩
  · simpa [writtenToken, text, chars] using isBlank_of_isAsciiWord name.isAsciiWord_first
  · intro member
    have lineEnd := word '\n' (by simpa [writtenToken, text] using member)
    cases lineEnd
  · simpa [writtenToken, text, NamePath.chars] using
      (NamePath.mk false name []).scanPhp_append fun c first => ends c first ▸ (by decide)

theorem isPlain_word {text : String} (listed : text ∈ wordBindings.map (·.1)) :
    (writtenToken .name text).IsPlain := by
  obtain ⟨name, rfl⟩ : ∃ name : Identifier, name.text = text := by
    fin_cases listed
    · exact ⟨⟨'o', ['r'], rfl, rfl⟩, rfl⟩
    · exact ⟨⟨'x', ['o', 'r'], rfl, rfl⟩, rfl⟩
    · exact ⟨⟨'a', ['n', 'd'], rfl, rfl⟩, rfl⟩
    · exact ⟨⟨'i', "nstanceof".toList, rfl, rfl⟩, rfl⟩
  exact name.isPlain

theorem LinkOperator.isPlain (operator : LinkOperator) : operator.token.IsPlain := by
  have listed : operator.text ∈ operatorBindings.map (·.1) :=
    List.mem_map_of_mem (f := Prod.fst) operator.listed
  have either : ∀ text ∈ operatorBindings.map (·.1),
      if wordBindings.any (·.1 == text) then text ∈ wordBindings.map (·.1) else text ∈ operators := by
    decide
  have here := either operator.text listed
  unfold token linkToken
  split at here
  · rename_i word
    rw [if_pos word]
    exact isPlain_word here
  · rename_i sign
    rw [if_neg sign]
    exact isPlain_operator here

theorem PrefixOperator.isPlain (operator : PrefixOperator) : operator.token.IsPlain :=
  isPlain_operator ((show ∀ text ∈ unaryOperators, text ∈ operators by decide) _ operator.listed)

theorem VariableName.segmentLength?_append (name : VariableName) {rest : List Char}
    (ends : ∀ c ∈ rest.head?, c = ' ') :
    segmentLength? (name.chars ++ rest) = some name.chars.length := by
  have stops : ∀ c ∈ rest.head?, isNamePart c = false := fun c first => ends c first ▸ by decide
  simp [chars, segmentLength?, name.starts, takeWhile_append_stop name.goesOn stops]

theorem VariableName.isPlain (name : VariableName) : name.token.IsPlain := by
  refine ⟨by simp [token], by simpa [token] using (by decide : isBlank '$' = false), ?_, rfl, rfl, rfl,
    fun ends => ?_⟩
  · intro member
    have lineEnd : '\n' ∈ name.chars := by simpa [token] using member
    rcases List.mem_cons.mp lineEnd with same | member
    · exact absurd (same ▸ name.starts) (by decide)
    · exact absurd (List.all_eq_true.mp name.goesOn _ member) (by decide)
  · have length := name.segmentLength?_append ends
    simp only [token, String.toList_ofList, text]
    rw [List.cons_append, scanPhp_plain _ (by decide) (by decide)]
    simp [scanPlain, variableLength?, length]

theorem isPlain_punctuation {text : String} (listed : text ∈ ["(", ")", ";"]) :
    (writtenToken .punctuation text).IsPlain := by
  have all : ["(", ")", ";"].all isInline = true := by decide
  refine isPlain_writtenToken (List.all_eq_true.mp all text listed) (by decide) fun _ => ?_
  fin_cases listed <;> rfl

theorem isPlain_enclosed {inParentheses : Bool} {tokens : List Token}
    (plain : ∀ token ∈ tokens, token.IsPlain) :
    ∀ token ∈ enclosed inParentheses tokens, token.IsPlain := by
  cases inParentheses with
  | false => exact plain
  | true =>
    intro token member
    simp only [enclosed, if_true, List.mem_cons, List.mem_append, List.not_mem_nil, or_false] at member
    obtain rfl | member | rfl := member
    · exact isPlain_punctuation (by decide)
    · exact plain token member
    · exact isPlain_punctuation (by decide)

theorem OperatorTree.isPlain (tree : OperatorTree) : ∀ token ∈ tree.tokens, token.IsPlain := by
  have question : questionToken.IsPlain := isPlain_operator (by decide)
  have colon : colonToken.IsPlain := isPlain_operator (by decide)
  induction tree with
  | var name => simpa [tokens] using name.isPlain
  | prefixed operator operand plain =>
    simpa [tokens, operator.isPlain] using isPlain_enclosed plain
  | binary operator left right plainLeft plainRight =>
    simp only [tokens, List.forall_mem_append, List.forall_mem_cons]
    exact ⟨isPlain_enclosed plainLeft, operator.isPlain, isPlain_enclosed plainRight⟩
  | shortChoice condition right plainCondition plainRight =>
    simp only [tokens, List.forall_mem_append, List.forall_mem_cons]
    exact ⟨isPlain_enclosed plainCondition, question, colon, isPlain_enclosed plainRight⟩
  | choice condition middle right plainCondition plainMiddle plainRight =>
    simp only [tokens, List.forall_mem_append, List.forall_mem_cons]
    exact ⟨isPlain_enclosed plainCondition, question, plainMiddle, colon, isPlain_enclosed plainRight⟩

theorem OperatorTree.isPlain_source (tree : OperatorTree) :
    ∀ token ∈ tree.tokens ++ [semicolonToken], token.IsPlain := by
  simp only [List.forall_mem_append, List.forall_mem_singleton]
  exact ⟨tree.isPlain, isPlain_punctuation (by decide)⟩

theorem Token.IsPlain.tokensFrom_cons {token : Token} (plain : token.IsPlain) (pieces : List Piece) :
    tokensFrom 1 (⟨token.raw.toList, some { kind := token.kind, text := token.text.toList }⟩ :: pieces) =
      token :: tokensFrom 1 pieces := by
  obtain ⟨kind, text, raw, line, interpolated⟩ := token
  obtain rfl : line = 1 := plain.line
  obtain rfl : interpolated = false := plain.known
  simp [tokensFrom, List.count_eq_zero.mpr plain.oneLine]

theorem significantTokens_of_isPlain {tokens : List Token} (plain : ∀ token ∈ tokens, token.IsPlain) :
    significantTokens tokens = tokens := by
  induction tokens with
  | nil => rfl
  | cons token rest ih =>
    have first := (plain token (List.mem_cons_self ..)).matters
    have others := ih fun other member => plain other (List.mem_cons_of_mem token member)
    have parts : significantTokens (token :: rest) = significantTokens [token] ++ significantTokens rest :=
      List.filterMap_append (l := [token])
    rw [parts, first, others, List.singleton_append]

theorem blankSeparated_cons_cons (token next : Token) (rest : List Token) :
    blankSeparated (token :: next :: rest) =
      token.raw.toList ++ ([' '] ++ blankSeparated (next :: rest)) := rfl

theorem isBlank_head_blankSeparated {tokens : List Token} (plain : ∀ token ∈ tokens, token.IsPlain) :
    ∀ c ∈ (blankSeparated tokens).head?, isBlank c = false := by
  cases tokens with
  | nil => exact nofun
  | cons token rest =>
    have first := plain token (List.mem_cons_self ..)
    cases rest with
    | nil => exact first.dark
    | cons next rest =>
      rw [blankSeparated_cons_cons, List.head?_append_of_ne_nil _ first.filled]
      exact first.dark

/-- Tokens that are written with blanks between them are read again. -/
theorem exists_piecesFrom_blankSeparated {tokens : List Token}
    (plain : ∀ token ∈ tokens, token.IsPlain) :
    ∃ pieces, piecesFrom .php (blankSeparated tokens) = .ok pieces ∧ tokensFrom 1 pieces = tokens := by
  induction tokens with
  | nil => exact ⟨[], by simp [blankSeparated, piecesFrom], rfl⟩
  | cons token rest ih =>
    have first := plain token (List.mem_cons_self ..)
    have others := fun other member => plain other (List.mem_cons_of_mem token member)
    obtain ⟨pieces, read, same⟩ := ih others
    cases rest with
    | nil =>
      have scanned : scan .php (token.raw.toList ++ []) = _ := first.scanned (by simp)
      have nothing : piecesFrom .php [] = .ok [] := by simp [piecesFrom]
      refine ⟨_, ?_, first.tokensFrom_cons []⟩
      simpa [blankSeparated] using piecesFrom_append first.filled scanned nothing
    | cons next rest =>
      have blank : piecesFrom .php ([' '] ++ blankSeparated (next :: rest)) =
          .ok (⟨[' '], none⟩ :: pieces) :=
        piecesFrom_append (by simp) (scanPhp_blank (isBlank_head_blankSeparated others)) read
      refine ⟨_, piecesFrom_append first.filled (first.scanned (by simp)) blank, ?_⟩
      rw [first.tokensFrom_cons]
      simpa [tokensFrom] using same

/-- The tokens of the source of a tree are those of the tree behind an opening tag. -/
theorem OperatorTree.sourceTokens_source (tree : OperatorTree) :
    sourceTokens tree.source =
      .ok (writtenToken .openTag "<?php" :: (tree.tokens ++ [semicolonToken])) := by
  obtain ⟨pieces, read, same⟩ := exists_piecesFrom_blankSeparated tree.isPlain_source
  rw [sourceTokens, sourcePieces, source, String.toList_ofList,
    piecesFrom_openTag (isBlank_head_blankSeparated tree.isPlain_source) read]
  simp [openingPieces, tokensFrom, Except.map, same, writtenToken]

end FormHarvest
