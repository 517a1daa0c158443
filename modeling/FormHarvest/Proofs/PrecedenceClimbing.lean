import FormHarvest.Proofs.ParserParts
import FormHarvest.Proofs.OperatorTrees
import FormHarvest.Proofs.PrintedSources

namespace FormHarvest

/-! ### Where expressions stop -/

/-- How tightly a token binds with which an expression goes on. -/
def linkPrecedence? (token : Token) : Option Nat :=
  if token.kind == .operator && assignmentOperators.contains token.text then some assignmentPrecedence
  else if isSign (some token) "?" then some ternaryPrecedence
  else (binaryOperator? token).map (·.2.precedence)

/-- An expression whose operators bind at least as tightly as `least` is over before these tokens. -/
structure Stops (least : Nat) (tokens : List Token) : Prop where
  rests : Rests tokens
  loose : ∀ token ∈ tokens.head?, ∀ precedence ∈ linkPrecedence? token, precedence < least

theorem Stops.mono {least more : Nat} {tokens : List Token} (stops : Stops least tokens)
    (le : least ≤ more) : Stops more tokens :=
  ⟨stops.rests, fun token first precedence binds =>
    Nat.lt_of_lt_of_le (stops.loose token first precedence binds) le⟩

theorem stops_of_noLink {token : Token} (least : Nat) (rest : List Token) (isRead : token.isRead = true)
    (noPostfix : ∀ text ∈ postfixSigns, isSign (some token) text = false)
    (noLink : linkPrecedence? token = none) : Stops least (token :: rest) := by
  refine ⟨.intro isRead noPostfix rest, fun other first precedence binds => ?_⟩
  obtain rfl : token = other := by simpa using first
  rw [noLink] at binds
  cases binds

theorem stops_closeToken (least : Nat) (rest : List Token) : Stops least (closeToken :: rest) :=
  stops_of_noLink least rest rfl (by decide) (by decide +kernel)

theorem stops_colonToken (least : Nat) (rest : List Token) : Stops least (colonToken :: rest) :=
  stops_of_noLink least rest rfl (by decide) (by decide +kernel)

theorem stops_semicolonToken (least : Nat) (rest : List Token) : Stops least (semicolonToken :: rest) :=
  stops_of_noLink least rest rfl (by decide) (by decide +kernel)

theorem stops_questionToken (rest : List Token) : Stops choiceBinding.rightLeast (questionToken :: rest) := by
  refine ⟨.intro rfl (by decide) rest, fun token first precedence binds => ?_⟩
  obtain rfl : questionToken = token := by simpa using first
  have link : linkPrecedence? questionToken = some ternaryPrecedence := by decide +kernel
  obtain rfl : ternaryPrecedence = precedence := by simpa [link] using binds
  decide

namespace LinkOperator

theorem linkPrecedence?_token (operator : LinkOperator) :
    linkPrecedence? operator.token = some operator.binding.precedence := by
  have all : ∀ entry ∈ operatorBindings, linkPrecedence? (linkToken entry.1) = some entry.2.precedence := by
    decide +kernel
  exact all _ operator.listed

theorem rests (operator : LinkOperator) (rest : List Token) : Rests (operator.token :: rest) := by
  have all : ∀ entry ∈ operatorBindings, (linkToken entry.1).isRead = true ∧
      ∀ text ∈ postfixSigns, isSign (some (linkToken entry.1)) text = false := by
    decide +kernel
  obtain ⟨isRead, noPostfix⟩ := all _ operator.listed
  exact .intro isRead noPostfix rest

/-- An operator ends what binds more tightly. -/
theorem stops (operator : LinkOperator) (rest : List Token) :
    Stops (operator.binding.precedence + 1) (operator.token :: rest) := by
  refine ⟨operator.rests rest, fun token first precedence binds => ?_⟩
  obtain rfl : operator.token = token := by simpa using first
  obtain rfl : operator.binding.precedence = precedence := by
    simpa [operator.linkPrecedence?_token] using binds
  exact Nat.lt_succ_self _

/-- An operator stands in exactly one of the tables. -/
theorem token_cases (operator : LinkOperator) :
    (operator.token.kind == .operator && assignmentOperators.contains operator.text) = true ∧
        operator.binding = ⟨assignmentPrecedence, true⟩ ∨
      (operator.token.kind == .operator && assignmentOperators.contains operator.text) = false ∧
        isSign (some operator.token) "?" = false ∧
        binaryOperator? operator.token = some (operator.text, operator.binding) := by
  have all : ∀ entry ∈ operatorBindings,
      ((linkToken entry.1).kind == .operator && assignmentOperators.contains entry.1) = true ∧
          entry.2 = ⟨assignmentPrecedence, true⟩ ∨
        ((linkToken entry.1).kind == .operator && assignmentOperators.contains entry.1) = false ∧
          isSign (some (linkToken entry.1)) "?" = false ∧
          binaryOperator? (linkToken entry.1) = some entry := by
    decide +kernel
  exact all _ operator.listed

end LinkOperator

namespace OperatorTree

/-- The tokens of a tree where operands have to bind at least as tightly as `least`. -/
def tokensAt (least : Nat) (tree : OperatorTree) : List Token := enclosed (tree.isLoose least) tree.tokens

/-- How deep a tree nests there. -/
def nestingAt (least : Nat) (tree : OperatorTree) : Nat := tree.nesting + (tree.isLoose least).toNat

/-- How tightly the last operand of a tree has to bind. -/
def rightLeast (tree : OperatorTree) : Nat := (tree.binding?.map Binding.rightLeast).getD tightest

variable (tree : OperatorTree)

theorem mem_linkBindings {binding : Binding} (binds : tree.binding? = some binding) :
    binding ∈ linkBindings := by
  cases tree with
  | var name => cases binds
  | prefixed operator operand => cases binds
  | binary operator left right => cases binds; exact operator.mem_linkBindings
  | shortChoice condition right => cases binds; exact List.mem_cons_self ..
  | choice condition middle right => cases binds; exact List.mem_cons_self ..

theorem precedence_le_rightLeast : tree.precedence ≤ tree.rightLeast := by
  unfold precedence rightLeast
  cases tree.binding? with
  | none => exact Nat.le_refl _
  | some binding => exact binding.precedence_le_rightLeast

theorem precedence_lt_tightest {binding : Binding} (listed : binding ∈ linkBindings) :
    binding.precedence < tightest := by
  have all : ∀ binding ∈ linkBindings, binding.precedence < tightest := by decide +kernel
  exact all binding listed

/-- Operators that bind alike group alike, so the operand before an operator ends at the operator. -/
theorem precedence_lt_rightLeast {tree : OperatorTree} {binding : Binding} (listed : binding ∈ linkBindings)
    (tight : binding.leftLeast ≤ tree.precedence) : binding.precedence < tree.rightLeast := by
  have alike : ∀ first ∈ linkBindings, ∀ second ∈ linkBindings, first.precedence = second.precedence →
      first.rightAssociative = second.rightAssociative := by
    decide +kernel
  have above := binding.precedence_le_leftLeast
  unfold precedence at tight
  unfold rightLeast
  cases binds : tree.binding? with
  | none => exact precedence_lt_tightest listed
  | some other =>
    replace tight : binding.leftLeast ≤ other.precedence := by simpa [binds] using tight
    show binding.precedence < other.rightLeast
    rcases Nat.lt_or_ge binding.precedence other.precedence with lower | upper
    · exact lower.trans_le other.precedence_le_rightLeast
    · have equal : binding.precedence = other.precedence := by omega
      have left : binding.rightAssociative = false := by
        by_contra right
        simp only [Binding.leftLeast, Bool.not_eq_false] at tight right
        rw [if_pos right] at tight
        omega
      rw [Binding.rightLeast, ← alike binding listed other (tree.mem_linkBindings binds) equal, left]
      simp only [Bool.false_eq_true, if_false]
      omega

theorem length_tokens_pos : 0 < tree.tokens.length := by
  cases tree <;> simp [tokens]

theorem line_node : tree.node.line = 1 := by cases tree <;> rfl

theorem doc_node : tree.node.doc = none := by cases tree <;> rfl

/-! ### First tokens -/

theorem opens_prefix (operator : PrefixOperator) (rest : List Token) :
    Opens Parse.leadSigns operator.token rest where
  isRead := rfl
  sign text absent := by
    have apart : operator.text ≠ text := fun same =>
      absent (same ▸ List.mem_append_right _ operator.listed)
    simp [isSign, PrefixOperator.token, writtenToken, apart]
  word name := by cases name
  noLabel name := by cases name
  typeCalled type := by cases type
  noCast paren := by
    have other : operator.text ≠ "(" := fun same => absurd (same ▸ operator.listed) (by decide)
    simp [isSign, PrefixOperator.token, writtenToken, other] at paren

theorem exists_opens_enclosed {tokens : List Token}
    (opens : ∀ rest, ∃ token behind, tokens ++ rest = token :: behind ∧ Opens Parse.leadSigns token behind)
    (inParentheses : Bool) (rest : List Token) :
    ∃ token behind, enclosed inParentheses tokens ++ rest = token :: behind ∧
      Opens Parse.leadSigns token behind := by
  cases inParentheses with
  | false => exact opens rest
  | true =>
    obtain ⟨token, behind, same, first⟩ := opens (closeToken :: rest)
    refine ⟨openToken, token :: behind, ?_, (opens_of_openParen first "(" 1).mono (by decide)⟩
    rw [← same]
    simp [enclosed]

/-- A tree starts with a variable, a prefix operator or a parenthesis. -/
theorem exists_opens (rest : List Token) :
    ∃ token behind, tree.tokens ++ rest = token :: behind ∧ Opens Parse.leadSigns token behind := by
  induction tree generalizing rest with
  | var name => exact ⟨name.token, rest, rfl, opens_of_kind _ _ (.inl rfl)⟩
  | prefixed operator operand => exact ⟨operator.token, _, rfl, opens_prefix operator _⟩
  | binary operator left right opensLeft =>
    simp only [tokens, List.append_assoc]
    exact exists_opens_enclosed opensLeft _ _
  | shortChoice condition right opensCondition =>
    simp only [tokens, List.append_assoc]
    exact exists_opens_enclosed opensCondition _ _
  | choice condition middle right opensCondition =>
    simp only [tokens, List.append_assoc]
    exact exists_opens_enclosed opensCondition _ _

theorem exists_opensAt (least : Nat) (rest : List Token) :
    ∃ token behind, tree.tokensAt least ++ rest = token :: behind ∧ Opens Parse.leadSigns token behind :=
  exists_opens_enclosed tree.exists_opens _ rest

end OperatorTree

namespace Parse

variable {rounds depth : Nat} {inner : Inner}

/-! ### Rounds of an expression -/

theorem expressionStep_stops {least : Nat} (left : Node) {tokens : List Token} (stops : Stops least tokens)
    (position skipped : Nat) :
    expressionStep inner least left ⟨tokens, none, position, skipped⟩ =
      .ok ((left, false), ⟨tokens, none, position, skipped⟩) := by
  obtain ⟨⟨isRead, -, rest⟩, loose⟩ := stops
  rename_i token
  replace loose := loose token rfl
  unfold linkPrecedence? at loose
  simp only [expressionStep, bind_run (peek_run isRead)]
  split at loose
  · rename_i assigns
    rw [if_pos assigns, if_pos (loose _ rfl)]
    rfl
  · rename_i noAssignment
    rw [if_neg noAssignment]
    split at loose
    · rename_i question
      rw [if_pos question, if_pos (loose _ rfl)]
      rfl
    · rename_i noQuestion
      rw [if_neg noQuestion]
      cases operator : binaryOperator? token with
      | none => rfl
      | some found =>
        rw [operator] at loose
        simp only [if_pos (loose found.2.precedence rfl)]
        rfl

/-- An operator takes the operand behind it. -/
theorem expressionStep_operator (operator : LinkOperator) {least : Nat}
    (tight : least ≤ operator.binding.precedence) (left : Node) {next : Token} {rest : List Token}
    (opens : Opens leadSigns next rest) {right : Node} {after : Cursor} {position skipped : Nat}
    (read : inner.expression operator.binding.rightLeast ⟨next :: rest, none, position + 1, skipped⟩ =
      .ok (some right, after)) :
    expressionStep inner least left ⟨operator.token :: next :: rest, none, position, skipped⟩ =
      .ok ((joined operator.text left (some right), true), after) := by
  obtain ⟨isRead, -⟩ := operator.rests (next :: rest)
  have text : operator.token.text = operator.text := rfl
  simp only [expressionStep, bind_run (peek_run isRead), text]
  obtain ⟨assigns, same⟩ | ⟨noAssignment, noQuestion, listed⟩ := operator.token_cases
  · simp only [same, Binding.rightLeast, if_true] at tight read
    simp only [assigns, if_true, if_neg (Nat.not_lt.mpr tight), bind_run (advance_run isRead),
      bind_run (takeSign_run_other opens.isRead (opens.sign "&" (by decide))), bind_run read]
    rfl
  · simp only [noAssignment, noQuestion, listed, Bool.false_eq_true, if_false,
      if_neg (Nat.not_lt.mpr tight), bind_run (advance_run isRead)]
    rw [Binding.rightLeast] at read
    simp only [bind_run read]
    rfl

/-- A short choice takes the operand behind its two signs. -/
theorem expressionStep_shortChoice {least : Nat} (tight : least ≤ ternaryPrecedence) (left : Node)
    {tokens : List Token} {right : Node} {after : Cursor} {position skipped : Nat}
    (read : inner.expression choiceBinding.rightLeast ⟨tokens, none, position + 2, skipped⟩ =
      .ok (some right, after)) :
    expressionStep inner least left
        ⟨questionToken :: colonToken :: tokens, none, position, skipped⟩ =
      .ok ((joined "?:" left (some right), true), after) := by
  have question : questionToken.isRead = true := rfl
  have colon : colonToken.isRead = true := rfl
  have noAssignment : (questionToken.kind == .operator && assignmentOperators.contains questionToken.text) =
    false := by decide
  have isQuestion : isSign (some questionToken) "?" = true := rfl
  have isColon : isSign (some colonToken) ":" = true := rfl
  have chosen : choice inner left ⟨questionToken :: colonToken :: tokens, none, position, skipped⟩ =
      .ok (joined "?:" left (some right), after) := by
    simp only [choice, bind_run (advance_run question), bind_run (takeSign_run colon isColon), if_true]
    exact map_run read
  simp only [expressionStep, bind_run (peek_run question), noAssignment, isQuestion, Bool.false_eq_true,
    if_false, if_true, if_neg (Nat.not_lt.mpr tight), bind_run chosen]
  rfl

/-- A choice takes the operand between its signs and the one behind them. -/
theorem expressionStep_choice {least : Nat} (tight : least ≤ ternaryPrecedence) (left : Node)
    {next : Token} {rest behind : List Token} (opens : Opens leadSigns next rest) {middle right : Node}
    {after : Cursor} {position further skipped : Nat}
    (readMiddle : inner.expression 0 ⟨next :: rest, none, position + 1, skipped⟩ =
      .ok (some middle, ⟨colonToken :: behind, none, further, skipped⟩))
    (read : inner.expression choiceBinding.rightLeast ⟨behind, none, further + 1, skipped⟩ =
      .ok (some right, after)) :
    expressionStep inner least left ⟨questionToken :: next :: rest, none, position, skipped⟩ =
      .ok ((.operation "ternary" [left, middle, right] { line := left.line }, true), after) := by
  have question : questionToken.isRead = true := rfl
  have colon : colonToken.isRead = true := rfl
  have noAssignment : (questionToken.kind == .operator && assignmentOperators.contains questionToken.text) =
    false := by decide
  have isQuestion : isSign (some questionToken) "?" = true := rfl
  have isColon : isSign (some colonToken) ":" = true := rfl
  have chosen : choice inner left ⟨questionToken :: next :: rest, none, position, skipped⟩ =
      .ok (.operation "ternary" [left, middle, right] { line := left.line }, after) := by
    simp only [choice, bind_run (advance_run question),
      bind_run (takeSign_run_other opens.isRead (opens.sign ":" (by decide))), Bool.false_eq_true, if_false,
      bind_run readMiddle, bind_run (takeSign_run colon isColon), if_true]
    exact map_run (f := fun right : Option Node =>
      Node.operation "ternary" (left :: [middle] ++ right.toList) { line := left.line }) read
  simp only [expressionStep, bind_run (peek_run question), noAssignment, isQuestion, Bool.false_eq_true,
    if_false, if_true, if_neg (Nat.not_lt.mpr tight), bind_run chosen]
  rfl

/-! ### Operands -/

/-- A parser reads tokens as a tree before all tokens of some kind. -/
def ReadsAs (rounds : Nat) (ends : List Token → Prop) (parse : Parse (Option Node)) (tokens : List Token)
    (node : Node) : Prop :=
  ∀ ⦃rest : List Token⦄ (position skipped : Nat), ends rest → tokens.length + rest.length < rounds →
    parse ⟨tokens ++ rest, none, position, skipped⟩ =
      .ok (some node, ⟨rest, none, position + tokens.length, skipped⟩)

/-- The parsers behind brackets and operators read all trees that nest less deep than they can. -/
structure TreesRead (rounds : Nat) (inner : Inner) (depth : Nat) : Prop where
  expression (tree : OperatorTree) (least : Nat) (small : tree.nestingAt least < depth) :
    ReadsAs rounds (Stops least) (inner.expression least) (tree.tokensAt least) tree.node
  unary (tree : OperatorTree) (small : tree.nestingAt tightest < depth) :
    ReadsAs rounds Rests inner.unary (tree.tokensAt tightest) tree.node

/-- A prefix operator takes the operand behind it, which is no number here. -/
theorem unary_prefixed (operator : PrefixOperator) {tree : OperatorTree} {rest : List Token} {after : Cursor}
    {position skipped : Nat}
    (read : inner.unary ⟨rest, none, position + 1, skipped⟩ = .ok (some tree.node, after)) :
    unary rounds inner ⟨operator.token :: rest, none, position, skipped⟩ =
      .ok (some (.operation ("unary" ++ operator.text) [tree.node] { line := 1 }), after) := by
  have isRead : operator.token.isRead = true := rfl
  have isOperator : (operator.token.kind == .operator && unaryOperators.contains operator.token.text) = true := by
    simpa [PrefixOperator.token, writtenToken] using operator.listed
  have applied : prefixed operator.token (some tree.node) =
      .operation ("unary" ++ operator.text) [tree.node] { line := 1 } := by
    cases tree <;> (unfold prefixed; split <;> first | rfl | (rename_i same; cases same))
  simp only [unary, bind_run (peek_run isRead), isOperator, if_true, bind_run (advance_run isRead)]
  rw [← applied]
  exact map_run (f := fun operand => some (prefixed operator.token operand)) read

namespace TreesRead

/-- Nothing is too loose to stand alone. -/
theorem expression_zero (reads : TreesRead rounds inner depth) (tree : OperatorTree)
    (small : tree.nesting < depth) :
    ReadsAs rounds (Stops 0) (inner.expression 0) tree.tokens tree.node :=
  reads.expression tree 0 small

/-- A tree in parentheses is an operand. -/
theorem unary_enclosed (reads : TreesRead rounds inner depth) (tree : OperatorTree)
    (small : tree.nesting < depth) :
    ReadsAs rounds Rests (Parse.unary rounds inner) (enclosed true tree.tokens) tree.node := by
  intro rest position skipped rests enough
  have comma : "," ∈ [",", ";", "=>"] := by decide
  obtain ⟨step, isLoop, loop⟩ := exists_listStep rounds inner comma (by decide)
  obtain ⟨token, behind, whole, opens⟩ := tree.exists_opens (closeToken :: rest)
  have length : (enclosed true tree.tokens).length = tree.tokens.length + 2 := by simp [enclosed]
  have filled := tree.length_tokens_pos
  have read := reads.expression_zero tree small (position + 1) skipped (stops_closeToken 0 rest)
    (by rw [List.length_cons]; omega)
  have closed := loop.closes [tree.node] ")" 1 rest (position + 1 + tree.tokens.length) skipped
  have inside : list rounds inner ")" [",", ";", "=>"]
      ⟨tree.tokens ++ closeToken :: rest, none, position + 1, skipped⟩ =
        .ok ([tree.node], ⟨rest, none, position + (tree.tokens.length + 2), skipped⟩) := by
    rw [isLoop]
    have one : Repeats step [] ⟨tree.tokens ++ closeToken :: rest, none, position + 1, skipped⟩ [tree.node]
        ⟨closeToken :: rest, none, position + 1 + tree.tokens.length, skipped⟩ := by
      rw [whole] at read ⊢
      refine .one (loop.reads [] opens read) ?_
      rw [← whole]
      simpa using filled
    have run : repeatStep step rounds [] _ = _ :=
      one.repeatStep_run closed (by simp only [List.length_append, List.length_cons]; omega)
    have place : position + 1 + tree.tokens.length + 1 = position + (tree.tokens.length + 2) := by omega
    rw [place] at run
    exact map_run (f := List.reverse) run
  have same : enclosed true tree.tokens ++ rest = openToken :: (tree.tokens ++ closeToken :: rest) := by
    simp [enclosed]
  rw [same, length]
  have opensParen : Opens ["(", "["] openToken (tree.tokens ++ closeToken :: rest) := by
    rw [whole]
    exact (opens_of_openParen opens "(" 1).mono (by decide)
  exact leaf_run (primary_parenthesised "(" 1 tree.doc_node inside) opensParen rests (by omega)

/-- Variables, prefixed operands and what stands in parentheses are operands. -/
theorem unary_tokensAt (reads : TreesRead rounds inner depth) (tree : OperatorTree)
    (small : tree.nestingAt tightest ≤ depth) :
    ReadsAs rounds Rests (Parse.unary rounds inner) (tree.tokensAt tightest) tree.node := by
  unfold OperatorTree.nestingAt at small
  unfold OperatorTree.tokensAt
  cases loose : tree.isLoose tightest with
  | true => exact reads.unary_enclosed tree (by simpa [loose] using small)
  | false =>
    intro rest position skipped rests enough
    cases tree with
    | var name =>
      exact leaf_run rfl (opens_of_kind _ _ (.inl rfl)) rests (by simp [enclosed] at enough; omega)
    | prefixed operator operand =>
      have below : operand.nestingAt tightest < depth := by
        simpa [OperatorTree.nesting, OperatorTree.nestingAt, loose] using small
      have same : enclosed false (OperatorTree.prefixed operator operand).tokens ++ rest =
          operator.token :: (operand.tokensAt tightest ++ rest) := rfl
      have length : (enclosed false (OperatorTree.prefixed operator operand).tokens).length =
        (operand.tokensAt tightest).length + 1 := rfl
      have read := reads.unary operand below (position + 1) skipped rests (by omega)
      rw [same, length, ← Nat.add_assoc, Nat.add_right_comm]
      exact unary_prefixed operator read
    | binary operator left right =>
      have below : operator.binding.precedence < tightest :=
        OperatorTree.precedence_lt_tightest operator.mem_linkBindings
      have isLoose : (OperatorTree.binary operator left right).isLoose tightest = true := decide_eq_true below
      rw [isLoose] at loose
      cases loose
    | shortChoice condition right => cases loose
    | choice condition middle right => cases loose

/-! ### Expressions -/

/-- Somewhere inside an expression: its first operand is read, and some rounds of operators lead to
the given tree and tokens. -/
def Climbs (rounds : Nat) (inner : Inner) (least : Nat) (tokens rest : List Token) (node : Node) : Prop :=
  ∀ position skipped, tokens.length + rest.length < rounds →
    ∃ first middle, Parse.unary rounds inner ⟨tokens ++ rest, none, position, skipped⟩ = .ok (some first, middle) ∧
      middle.rest.length < rounds ∧
      Repeats (expressionStep inner least) first middle node
        ⟨rest, none, position + tokens.length, skipped⟩

theorem climbs_of_unary {least : Nat} {tokens rest : List Token} {node : Node}
    (reads : ReadsAs rounds Rests (Parse.unary rounds inner) tokens node) (rests : Rests rest) :
    Climbs rounds inner least tokens rest node := by
  intro position skipped enough
  exact ⟨node, _, reads position skipped rests enough, by simp; omega, .refl _ _⟩

/-- The operand before an operator is reached, in parentheses or without them. -/
theorem climbs_left (reads : TreesRead rounds inner depth) {tree : OperatorTree} {binding : Binding}
    (listed : binding ∈ linkBindings) {least : Nat}
    (tight : least ≤ binding.precedence) (small : tree.nestingAt binding.leftLeast ≤ depth)
    (climbs : tree.nesting ≤ depth → least ≤ tree.precedence → ∀ {rest}, Stops tree.rightLeast rest →
      Climbs rounds inner least tree.tokens rest tree.node)
    {rest : List Token} (stops : Stops (binding.precedence + 1) rest) :
    Climbs rounds inner least (tree.tokensAt binding.leftLeast) rest tree.node := by
  unfold OperatorTree.nestingAt at small
  unfold OperatorTree.tokensAt
  cases loose : tree.isLoose binding.leftLeast with
  | true =>
    rw [loose] at small
    exact climbs_of_unary (reads.unary_enclosed tree small) stops.rests
  | false =>
    have bound : binding.leftLeast ≤ tree.precedence := by simpa [OperatorTree.isLoose] using loose
    have below := binding.precedence_le_leftLeast
    exact climbs (by omega) (by omega) (stops.mono (OperatorTree.precedence_lt_rightLeast listed bound))

/-- A round of an expression behind its first operands. -/
theorem Climbs.round {least : Nat} {left rest : List Token} (link : List Token) {node further : Node}
    (climbs : Climbs rounds inner least left (link ++ rest) node) (filled : 0 < link.length)
    (run : ∀ position skipped, link.length + rest.length < rounds →
      expressionStep inner least node ⟨link ++ rest, none, position, skipped⟩ =
        .ok ((further, true), ⟨rest, none, position + link.length, skipped⟩)) :
    Climbs rounds inner least (left ++ link) rest further := by
  intro position skipped enough
  simp only [List.length_append] at enough
  obtain ⟨first, middle, read, shorter, repeats⟩ := climbs position skipped
    (by simp only [List.length_append]; omega)
  have one := run (position + left.length) skipped (by omega)
  refine ⟨first, middle, by rwa [List.append_assoc], shorter, ?_⟩
  rw [List.length_append, ← Nat.add_assoc]
  exact repeats.trans (.one one (by simpa using filled))

theorem round_operator (reads : TreesRead rounds inner depth) (operator : LinkOperator)
    (left right : OperatorTree) (small : right.nestingAt operator.binding.rightLeast < depth) {least : Nat}
    (tight : least ≤ operator.binding.precedence) {rest : List Token}
    (stops : Stops operator.binding.rightLeast rest) (position skipped : Nat)
    (enough : (right.tokensAt operator.binding.rightLeast).length + 1 + rest.length < rounds) :
    expressionStep inner least left.node
        ⟨operator.token :: (right.tokensAt operator.binding.rightLeast ++ rest), none, position, skipped⟩ =
      .ok ((.operation operator.text [left.node, right.node] { line := 1 }, true),
        ⟨rest, none, position + ((right.tokensAt operator.binding.rightLeast).length + 1), skipped⟩) := by
  have read := reads.expression right operator.binding.rightLeast small (position + 1) skipped stops (by omega)
  obtain ⟨token, behind, whole, opens⟩ := right.exists_opensAt operator.binding.rightLeast rest
  have place : position + 1 + (right.tokensAt operator.binding.rightLeast).length =
    position + ((right.tokensAt operator.binding.rightLeast).length + 1) := by omega
  rw [whole, place] at read
  rw [whole, expressionStep_operator operator tight left.node opens read, joined, left.line_node]
  rfl

theorem round_shortChoice (reads : TreesRead rounds inner depth) (condition right : OperatorTree)
    (small : right.nestingAt choiceBinding.rightLeast < depth) {least : Nat}
    (tight : least ≤ ternaryPrecedence) {rest : List Token} (stops : Stops choiceBinding.rightLeast rest)
    (position skipped : Nat)
    (enough : (right.tokensAt choiceBinding.rightLeast).length + 2 + rest.length < rounds) :
    expressionStep inner least condition.node
        ⟨questionToken :: colonToken :: (right.tokensAt choiceBinding.rightLeast ++ rest), none, position,
          skipped⟩ =
      .ok ((.operation "?:" [condition.node, right.node] { line := 1 }, true),
        ⟨rest, none, position + ((right.tokensAt choiceBinding.rightLeast).length + 2), skipped⟩) := by
  have read := reads.expression right choiceBinding.rightLeast small (position + 2) skipped stops (by omega)
  have place : position + 2 + (right.tokensAt choiceBinding.rightLeast).length =
    position + ((right.tokensAt choiceBinding.rightLeast).length + 2) := by omega
  rw [place] at read
  rw [expressionStep_shortChoice tight condition.node read, joined, condition.line_node]
  rfl

theorem round_choice (reads : TreesRead rounds inner depth) (condition middle right : OperatorTree)
    (smallMiddle : middle.nesting < depth) (small : right.nestingAt choiceBinding.rightLeast < depth)
    {least : Nat} (tight : least ≤ ternaryPrecedence) {rest : List Token}
    (stops : Stops choiceBinding.rightLeast rest) (position skipped : Nat)
    (enough : middle.tokens.length + (right.tokensAt choiceBinding.rightLeast).length + 2 + rest.length < rounds) :
    expressionStep inner least condition.node
        ⟨questionToken :: (middle.tokens ++ colonToken :: (right.tokensAt choiceBinding.rightLeast ++ rest)),
          none, position, skipped⟩ =
      .ok ((.operation "ternary" [condition.node, middle.node, right.node] { line := 1 }, true),
        ⟨rest, none, position + (middle.tokens.length + (right.tokensAt choiceBinding.rightLeast).length + 2),
          skipped⟩) := by
  have readMiddle := reads.expression_zero middle smallMiddle (position + 1) skipped
    (stops_colonToken 0 (right.tokensAt choiceBinding.rightLeast ++ rest))
    (by simp only [List.length_cons, List.length_append]; omega)
  have read := reads.expression right choiceBinding.rightLeast small
    (position + 1 + middle.tokens.length + 1) skipped stops (by omega)
  obtain ⟨token, behind, whole, opens⟩ :=
    middle.exists_opens (colonToken :: (right.tokensAt choiceBinding.rightLeast ++ rest))
  have place : position + 1 + middle.tokens.length + 1 + (right.tokensAt choiceBinding.rightLeast).length =
    position + (middle.tokens.length + (right.tokensAt choiceBinding.rightLeast).length + 2) := by omega
  rw [whole] at readMiddle ⊢
  rw [place] at read
  rw [expressionStep_choice tight condition.node opens readMiddle read, condition.line_node]

/-- Before tokens that end its last operand a tree is read operator by operator. -/
theorem climbs (reads : TreesRead rounds inner depth) (tree : OperatorTree) (small : tree.nesting ≤ depth)
    {least : Nat} (tight : least ≤ tree.precedence) {rest : List Token} (stops : Stops tree.rightLeast rest) :
    Climbs rounds inner least tree.tokens rest tree.node := by
  induction tree generalizing rest with
  | var name =>
    exact climbs_of_unary (reads.unary_tokensAt (.var name) (Nat.zero_le _)) stops.rests
  | prefixed operator operand =>
    exact climbs_of_unary (reads.unary_tokensAt (.prefixed operator operand) small) stops.rests
  | binary operator left right climbsLeft =>
    obtain ⟨smallLeft, smallRight⟩ := Nat.max_le.mp small
    have atLeft := reads.climbs_left operator.mem_linkBindings tight smallLeft climbsLeft
      (operator.stops (right.tokensAt operator.binding.rightLeast ++ rest))
    exact Climbs.round (operator.token :: right.tokensAt operator.binding.rightLeast) atLeft
      (Nat.succ_pos _) fun position skipped enough =>
        reads.round_operator operator left right smallRight tight stops position skipped enough
  | shortChoice condition right climbsCondition =>
    obtain ⟨smallCondition, smallRight⟩ := Nat.max_le.mp small
    have atCondition := reads.climbs_left (List.mem_cons_self ..) tight smallCondition climbsCondition
      (stops_questionToken (colonToken :: (right.tokensAt choiceBinding.rightLeast ++ rest)))
    exact Climbs.round (questionToken :: colonToken :: right.tokensAt choiceBinding.rightLeast) atCondition
      (Nat.succ_pos _) fun position skipped enough =>
        reads.round_shortChoice condition right smallRight tight stops position skipped enough
  | choice condition middle right climbsCondition =>
    obtain ⟨smallCondition, smallOthers⟩ := Nat.max_le.mp small
    obtain ⟨smallMiddle, smallRight⟩ := Nat.max_le.mp smallOthers
    have atCondition := reads.climbs_left (List.mem_cons_self ..) tight smallCondition climbsCondition
      (stops_questionToken ((middle.tokens ++ colonToken :: right.tokensAt choiceBinding.rightLeast) ++ rest))
    refine Climbs.round (questionToken :: (middle.tokens ++ colonToken :: right.tokensAt choiceBinding.rightLeast))
      atCondition (Nat.succ_pos _) fun position skipped enough => ?_
    have length : (questionToken :: (middle.tokens ++ colonToken :: right.tokensAt choiceBinding.rightLeast)).length =
        middle.tokens.length + (right.tokensAt choiceBinding.rightLeast).length + 2 := by
      simp only [List.length_cons, List.length_append]
      omega
    rw [length] at enough ⊢
    rw [List.cons_append, List.append_assoc, List.cons_append]
    exact reads.round_choice condition middle right smallMiddle smallRight tight stops position skipped enough

/-- Trees are read as expressions wherever their parentheses fit. -/
theorem expression_tokensAt (reads : TreesRead rounds inner depth) (tree : OperatorTree) (least : Nat)
    (small : tree.nestingAt least ≤ depth) :
    ReadsAs rounds (Stops least) (Parse.expression rounds inner least) (tree.tokensAt least) tree.node := by
  intro rest position skipped stops enough
  have climbs : Climbs rounds inner least (tree.tokensAt least) rest tree.node := by
    unfold OperatorTree.nestingAt at small
    unfold OperatorTree.tokensAt
    cases loose : tree.isLoose least with
    | true =>
      rw [loose] at small
      exact climbs_of_unary (reads.unary_enclosed tree small) stops.rests
    | false =>
      have tight : least ≤ tree.precedence := by simpa [OperatorTree.isLoose] using loose
      exact reads.climbs tree (by omega) tight (stops.mono (tight.trans tree.precedence_le_rightLeast))
  obtain ⟨first, middle, read, shorter, repeats⟩ := climbs position skipped enough
  rw [expression_eq, bind_run read]
  exact map_run (f := some) (repeats.repeatStep_run (expressionStep_stops tree.node stops _ skipped) shorter)

end TreesRead

/-- Whatever nests less deep than the parsers can is read. -/
theorem treesRead_ofDepth (rounds depth : Nat) : TreesRead rounds (Inner.ofDepth rounds depth) depth := by
  induction depth with
  | zero => exact ⟨fun _ _ small => absurd small (Nat.not_lt_zero _), fun _ small => absurd small (Nat.not_lt_zero _)⟩
  | succ depth ih =>
    exact ⟨fun tree least small => ih.expression_tokensAt tree least (Nat.le_of_lt_succ small),
      fun tree small => ih.unary_tokensAt tree (Nat.le_of_lt_succ small)⟩

/-- A tree that is a statement of its own. -/
theorem TreesRead.statements (reads : TreesRead rounds inner depth) (tree : OperatorTree)
    (small : tree.nesting ≤ depth) (enough : tree.tokens.length + 1 < rounds) :
    Parse.statements rounds inner none { rest := tree.tokens ++ [semicolonToken] } =
      .ok ([tree.node], { rest := [], position := tree.tokens.length + 1 }) := by
  obtain ⟨step, isLoop, loop⟩ := exists_statementsStep rounds inner none (.inl rfl)
  obtain ⟨token, behind, whole, opens⟩ := tree.exists_opens [semicolonToken]
  have read := reads.expression_tokensAt tree 0 small 0 0 (stops_semicolonToken 0 []) enough
  have repeats := loop.repeats_expression [] whole opens tree.length_tokens_pos read
  rw [isLoop]
  rw [Nat.zero_add] at repeats
  exact map_run (f := List.reverse) (repeats.repeatStep_run (loop.ends [tree.node] _ 0)
    (by simpa using enough))

end Parse

/-- The parser gives a tree back from its tokens behind an opening tag. -/
theorem OperatorTree.parseTokens_tokens (tree : OperatorTree) {limit : Nat} (small : tree.nesting < limit) :
    parseTokens (writtenToken .openTag "<?php" :: (tree.tokens ++ [semicolonToken])) limit
      = .ok ([tree.node], 0) := by
  obtain ⟨depth, rfl⟩ := Nat.exists_eq_add_of_lt small
  have significant : significantTokens (writtenToken .openTag "<?php" :: (tree.tokens ++ [semicolonToken])) =
      tree.tokens ++ [semicolonToken] := by
    rw [significantTokens, List.filterMap_cons_none rfl]
    exact significantTokens_of_isPlain tree.isPlain_source
  have read : (Inner.ofDepth ((tree.tokens ++ [semicolonToken]).length + 1) (tree.nesting + depth + 1)).statements none
      { rest := tree.tokens ++ [semicolonToken] } = _ :=
    (Parse.treesRead_ofDepth _ (tree.nesting + depth)).statements tree (Nat.le_add_right _ _) (by simp)
  simp only [parseTokens, significant, read]

/-- **Operators bind as the table says.** The text of a tree of operators, with blanks between its tokens
and with parentheses around an operand exactly if its operator does not bind tightly enough for its
place, is parsed as this tree, and nothing is logged. So it is for every limit of nesting that the tree
stays under. -/
theorem OperatorTree.parseSource_source (path : String) (tree : OperatorTree) {limit : Nat}
    (small : tree.nesting < limit) :
    parseSource path tree.source limit = .ok (⟨path, [tree.node]⟩, []) := by
  simp only [parseSource, tree.sourceTokens_source, tree.parseTokens_tokens small]
  rfl

/-- A choice that is assigned, behind a word that binds less tightly, and operators that group to the
left and to the right. -/
def mixedTree : OperatorTree :=
  let named (first : Char) (starts : isNameStart first = true) : OperatorTree :=
    .var ⟨first, [], starts, rfl⟩
  let a := named 'a' (by decide)
  let b := named 'b' (by decide)
  let é := named 'é' (by decide)
  let either : LinkOperator := ⟨"or", ⟨1, false⟩, by decide⟩
  let appended : LinkOperator := ⟨".=", ⟨4, true⟩, by decide⟩
  let minus : LinkOperator := ⟨"-", ⟨16, false⟩, by decide⟩
  let power : LinkOperator := ⟨"**", ⟨20, true⟩, by decide⟩
  let negated : PrefixOperator := ⟨"!", by decide⟩
  .binary either
    (.binary appended a (.shortChoice (.choice a (.binary appended b é) b) (.binary minus a b)))
    (.binary minus (.binary minus a (.prefixed negated (.prefixed negated b)))
      (.binary minus (.binary power (.binary power a b) (.binary power b é))
        (.prefixed negated (.binary either a b))))

theorem mixedTree_parsed :
    mixedTree.nesting < maxNesting ∧
      mixedTree.source = "<?php $a .= $a ? $b .= $é : $b ? : $a - $b or " ++
        "$a - ! ! $b - ( ( $a ** $b ) ** $b ** $é - ! ( $a or $b ) ) ;" ∧
      parseSource "Mixed.php" mixedTree.source = .ok (⟨"Mixed.php", [mixedTree.node]⟩, []) :=
  have small : mixedTree.nesting < maxNesting := by decide +kernel
  ⟨small, by decide +kernel, mixedTree.parseSource_source "Mixed.php" small⟩

end FormHarvest
