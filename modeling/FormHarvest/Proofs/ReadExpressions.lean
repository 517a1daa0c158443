import FormHarvest.Proofs.ReadArrays

namespace FormHarvest

namespace Parse

open Expression

variable {rounds depth : Nat} {inner : Inner}

/-! ### Operands -/

theorem doc_withoutLines (node : Node) : node.withoutLines.doc = node.doc := by
  cases node with
  | item content =>
    cases content
    rfl
  | _ => rfl

theorem doc_node (expression : Expression) : expression.node.doc = none := by
  cases expression with
  | number negative numeral => cases negative <;> rfl
  | _ => rfl

/-- Somewhere inside an operand: its first part is read, and some rounds of accesses and calls lead
to the given tree and tokens. -/
def Reached (rounds : Nat) (inner : Inner) (step : Node → Parse (Node × Bool)) (start : Cursor)
    (tree : Node) (cursor : Cursor) : Prop :=
  ∃ first middle node, primary rounds inner start = .ok (some first, middle) ∧
    middle.rest.length < rounds ∧ node.withoutLines = tree ∧ Repeats step first middle node cursor

namespace Reached

variable {step : Node → Parse (Node × Bool)} {start : Cursor} {tree : Node} {tokens : List Token}
  {position skipped : Nat}

theorem of_primary {node : Node} {place : Nat}
    (read : primary rounds inner start = .ok (some node, ⟨tokens, none, place, skipped⟩))
    (same : node.withoutLines = tree) (enough : tokens.length < rounds) (here : place = position) :
    Reached rounds inner step start tree ⟨tokens, none, position, skipped⟩ := by
  subst here
  exact ⟨node, _, node, read, enough, same, .refl node _⟩

theorem round {cursor : Cursor} {further : Node} {place : Nat}
    (reached : Reached rounds inner step start tree cursor)
    (run : ∀ node : Node, node.withoutLines = tree → ∃ next : Node, next.withoutLines = further ∧
      step node cursor = .ok ((next, true), ⟨tokens, none, place, skipped⟩))
    (shorter : tokens.length < cursor.rest.length) (here : place = position) :
    Reached rounds inner step start further ⟨tokens, none, position, skipped⟩ := by
  subst here
  obtain ⟨first, middle, node, read, enough, same, repeats⟩ := reached
  obtain ⟨next, sameNext, one⟩ := run node same
  exact ⟨first, middle, next, read, enough, sameNext, repeats.trans (.one one shorter)⟩

end Reached

/-- The parsers read an expression up to what follows it. -/
def Reaches (rounds : Nat) (inner : Inner) (step : Node → Parse (Node × Bool))
    (expression : Expression) : Prop :=
  ∀ ⦃tokens : List Token⦄ ⦃next : Token⦄ (behind : List Token) (position skipped : Nat),
    Stands expression.lexemes tokens → Continues (expression.isOpen true) next →
    tokens.length + behind.length + 1 < rounds →
    Reached rounds inner step ⟨tokens ++ next :: behind, none, position, skipped⟩ expression.node
      ⟨next :: behind, none, position + tokens.length, skipped⟩

/-- What an access or a call stands behind is reached, in parentheses or without them. -/
theorem InnerReads.reached_receiver (reads : InnerReads rounds inner depth)
    (step : Node → Parse (Node × Bool)) {receiver : Expression} (called : Bool)
    (reaches : receiver.isOpen called = true → Reaches rounds inner step receiver)
    (small : receiver.isOpen called = false → receiver.nesting < depth) {tokens : List Token}
    {next : Token} (behind : List Token) (position skipped : Nat)
    (stands : Stands (if receiver.isOpen called then receiver.lexemes
      else parenthesised receiver.lexemes) tokens)
    (continues : receiver.isOpen called = true → Continues (receiver.isOpen true) next)
    (enough : tokens.length + behind.length + 1 < rounds) :
    Reached rounds inner step ⟨tokens ++ next :: behind, none, position, skipped⟩ receiver.node
      ⟨next :: behind, none, position + tokens.length, skipped⟩ := by
  cases open_ : receiver.isOpen called with
  | true =>
    rw [if_pos open_] at stands
    exact reaches open_ behind position skipped stands (continues open_) enough
  | false =>
    rw [open_, if_neg Bool.false_ne_true] at stands
    cases stands with
    | cons raw line stands =>
      rename_i tokens
      simp only [List.length_cons] at enough
      have fits : argsNesting [receiver] ≤ depth := by
        have := small open_
        simp only [argsNesting]
        omega
      obtain ⟨found, same, read⟩ := reads.list [",", ";", "=>"] (by decide) (by decide) [receiver] fits
        (next :: behind) (position + 1) skipped stands (by simp only [List.length_cons]; omega)
      obtain ⟨node, rfl⟩ : ∃ node, found = [node] := by
        have length := congrArg List.length same
        simpa [nodes, List.length_eq_one_iff] using length
      have same : node.withoutLines = receiver.node := by simpa [nodes] using same
      have noDoc : node.doc = none := by rw [← doc_withoutLines, same, doc_node]
      exact .of_primary (primary_parenthesised raw line noDoc read) same
        (by simp only [List.length_cons]; omega) (by simp only [List.length_cons]; omega)

/-- The arguments of a call, behind the parenthesis that opens them. -/
theorem InnerReads.exists_args (reads : InnerReads rounds inner depth) {args : List Expression}
    (small : argsNesting args ≤ depth) {tokens : List Token} (next : Token) (behind : List Token)
    (stands : Stands (parenthesised (separated (pieces args))) tokens)
    (enough : tokens.length + behind.length + 1 < rounds) :
    ∃ raw line inside, tokens = (Lexeme.sign .openParen).token raw line :: inside ∧
      ∀ position skipped, ∃ found : List Node, found.map Node.withoutLines = nodes args ∧
        Parse.list rounds inner ")" [","] ⟨inside ++ next :: behind, none, position, skipped⟩ =
          .ok (found, ⟨next :: behind, none, position + inside.length, skipped⟩) := by
  cases stands with
  | cons raw line stands =>
    rename_i inside
    simp only [List.length_cons] at enough
    refine ⟨raw, line, inside, rfl, fun position skipped => ?_⟩
    exact reads.list [","] (by decide) (by decide) args small (next :: behind) position skipped stands
      (by simp only [List.length_cons]; omega)

/-! ### Kinds of expressions -/

section Kinds

variable {step : Node → Parse (Node × Bool)}

theorem reaches_var (name : Identifier) : Reaches rounds inner step (.var name) := by
  intro _ next behind position skipped stands _ enough
  cases stands with
  | cons raw line stands =>
    cases stands
    exact .of_primary rfl rfl (by simp at enough ⊢; omega) rfl

theorem reaches_string (text : String) : Reaches rounds inner step (.string text) := by
  intro _ next behind position skipped stands _ enough
  cases stands with
  | cons raw line stands =>
    cases stands
    exact .of_primary (primary_string text raw line _ none position skipped) rfl
      (by simp at enough ⊢; omega) rfl

theorem reaches_number (numeral : Numeral) : Reaches rounds inner step (.number false numeral) := by
  intro _ next behind position skipped stands _ enough
  cases stands with
  | cons raw line stands =>
    cases stands
    exact .of_primary (primary_number numeral raw line _ position skipped) rfl
      (by simp at enough ⊢; omega) rfl

theorem reaches_constant (name : Name) : Reaches rounds inner step (.constant name) := by
  intro _ next behind position skipped stands continues enough
  cases stands with
  | cons raw line stands =>
    cases stands
    exact .of_primary (primary_constant name raw line next continues.isRead (continues.noCall rfl)
      continues.noAccess) rfl (by simp at enough ⊢; omega) rfl

theorem reaches_classConstant (className : Name) (name : Identifier) :
    Reaches rounds inner step (.classConstant className name) := by
  intro _ next behind position skipped stands continues enough
  cases stands with
  | cons raw line stands =>
    cases stands with
    | cons colonRaw colonLine stands =>
      cases stands with
      | cons nameRaw nameLine stands =>
        cases stands
        exact .of_primary (primary_static className raw line colonRaw colonLine
          (staticAccess_constant className.text { line } name colonRaw nameRaw colonLine nameLine next
            continues.isRead (continues.noCall rfl))) rfl (by simp at enough ⊢; omega) rfl

theorem reaches_staticProperty (className : Name) (name : Identifier) :
    Reaches rounds inner step (.staticProperty className name) := by
  intro _ next behind position skipped stands _ enough
  cases stands with
  | cons raw line stands =>
    cases stands with
    | cons colonRaw colonLine stands =>
      cases stands with
      | cons nameRaw nameLine stands =>
        cases stands
        exact .of_primary (primary_static className raw line colonRaw colonLine
          (staticAccess_property className.text { line } name colonRaw nameRaw colonLine nameLine)) rfl
          (by simp at enough ⊢; omega) rfl

theorem InnerReads.reaches_shortArray (reads : InnerReads rounds inner depth) (items : List (ItemOf Expression))
    (small : itemsNesting items ≤ depth) : Reaches rounds inner step (.array false items) := by
  intro _ next behind position skipped stands _ enough
  cases stands with
  | cons raw line stands =>
    simp only [List.length_cons] at enough
    obtain ⟨found, same, read⟩ := reads.array (.inl rfl) { line } items small (next :: behind)
      (position + 1) skipped stands (by simp only [List.length_cons]; omega)
    exact .of_primary (map_run (f := some) read)
      (by simp [Node.withoutLines, Node.itemsWithoutLines_eq_map, same, node, Mark.withoutLine])
      (by simp only [List.length_cons]; omega) (by simp only [List.length_cons]; omega)

theorem InnerReads.reaches_longArray (reads : InnerReads rounds inner depth) (items : List (ItemOf Expression))
    (small : itemsNesting items ≤ depth) : Reaches rounds inner step (.array true items) := by
  intro _ next behind position skipped stands _ enough
  cases stands with
  | cons raw line stands =>
    cases stands with
    | cons parenRaw parenLine stands =>
      simp only [List.length_cons] at enough
      obtain ⟨found, same, read⟩ := reads.array (.inr rfl) { line } items small (next :: behind)
        (position + 2) skipped stands (by simp only [List.length_cons]; omega)
      exact .of_primary (primary_longArray read)
        (by simp [Node.withoutLines, Node.itemsWithoutLines_eq_map, same, node, Mark.withoutLine])
        (by simp only [List.length_cons]; omega) (by simp only [List.length_cons]; omega)

theorem InnerReads.reaches_call (reads : InnerReads rounds inner depth) (name : Name) (args : List Expression)
    (small : argsNesting args ≤ depth) : Reaches rounds inner step (.call name args) := by
  intro _ next behind position skipped stands _ enough
  cases stands with
  | cons raw line stands =>
    simp only [List.length_cons] at enough
    obtain ⟨parenRaw, parenLine, inside, rfl, run⟩ :=
      reads.exists_args small next behind stands (by omega)
    obtain ⟨found, same, read⟩ := run (position + 2) skipped
    simp only [List.length_cons] at enough
    exact .of_primary (primary_call name raw line parenRaw parenLine read)
      (by simp [Node.withoutLines, Node.allWithoutLines_eq_map, same, node, Mark.withoutLine,
        Node.partWithoutLines])
      (by simp only [List.length_cons]; omega) (by simp only [List.length_cons]; omega)

theorem InnerReads.reaches_staticCall (reads : InnerReads rounds inner depth) (className : Name) (name : Identifier)
    (args : List Expression) (small : argsNesting args ≤ depth) :
    Reaches rounds inner step (.staticCall className name args) := by
  intro _ next behind position skipped stands _ enough
  cases stands with
  | cons raw line stands =>
    cases stands with
    | cons colonRaw colonLine stands =>
      cases stands with
      | cons nameRaw nameLine stands =>
        simp only [List.length_cons] at enough
        obtain ⟨parenRaw, parenLine, inside, rfl, run⟩ :=
          reads.exists_args small next behind stands (by omega)
        obtain ⟨found, same, read⟩ := run (position + 1 + 3) skipped
        simp only [List.length_cons] at enough
        exact .of_primary (primary_static className raw line colonRaw colonLine
          (staticAccess_call className.text { line } name colonRaw nameRaw colonLine nameLine parenRaw
            parenLine read))
          (by simp [Node.withoutLines, Node.allWithoutLines_eq_map, same, node, Mark.withoutLine])
          (by simp only [List.length_cons]; omega) (by simp only [List.length_cons]; omega)

theorem InnerReads.reaches_creation (reads : InnerReads rounds inner depth) (className : Name)
    (args : List Expression) (small : argsNesting args ≤ depth) :
    Reaches rounds inner step (.creation className args) := by
  intro _ next behind position skipped stands _ enough
  cases stands with
  | cons raw line stands =>
    cases stands with
    | cons nameRaw nameLine stands =>
      simp only [List.length_cons] at enough
      obtain ⟨parenRaw, parenLine, inside, rfl, run⟩ :=
        reads.exists_args small next behind stands (by omega)
      obtain ⟨found, same, read⟩ := run (position + 3) skipped
      simp only [List.length_cons] at enough
      exact .of_primary (primary_creation className read)
        (by simp [Node.withoutLines, Node.allWithoutLines_eq_map, same, node, Mark.withoutLine])
        (by simp only [List.length_cons]; omega) (by simp only [List.length_cons]; omega)

/-- What stands before an access or a call is reached as it is written: as it is, or as what stands in
parentheses. -/
structure ReachesBefore (rounds : Nat) (inner : Inner) (depth : Nat) (step : Node → Parse (Node × Bool))
    (called : Bool) (receiver : Expression) : Prop where
  open_ : receiver.isOpen called = true → Reaches rounds inner step receiver
  closed : receiver.isOpen called = false → receiver.nesting < depth

/-- In parentheses a receiver nests less deep than what it stands before. -/
theorem ReachesBefore.of_nesting {called : Bool} {receiver : Expression}
    (small : (if receiver.isOpen called then receiver.nesting else receiver.nesting + 1) ≤ depth)
    (reaches : receiver.isNegative = false → receiver.nesting ≤ depth → Reaches rounds inner step receiver) :
    ReachesBefore rounds inner depth step called receiver where
  open_ isOpen := by
    rw [if_pos isOpen] at small
    exact reaches (not_isNegative_of_isOpen isOpen) small
  closed isClosed := by rwa [isClosed, if_neg Bool.false_ne_true] at small

theorem InnerReads.reaches_callOf (reads : InnerReads rounds inner depth) (loop : PostfixStep rounds inner step)
    {callee : Expression} (before : ReachesBefore rounds inner depth step true callee) (args : List Expression)
    (small : argsNesting args ≤ depth) : Reaches rounds inner step (.callOf callee args) := by
  intro _ next behind position skipped stands _ enough
  obtain ⟨front, back, rfl, atCallee, atArgs⟩ := stands.exists_append
  simp only [List.length_append] at enough
  obtain ⟨raw, line, inside, rfl, run⟩ := reads.exists_args small next behind atArgs (by omega)
  obtain ⟨found, same, read⟩ := run (position + front.length + 1) skipped
  simp only [List.length_cons] at enough
  have reached := reads.reached_receiver step true before.open_ before.closed
    (inside ++ next :: behind) position skipped atCallee
    (fun open_ => open_ ▸ continues_openParen raw line) (by simp; omega)
  rw [List.append_assoc, List.cons_append]
  refine reached.round (fun node sameNode => ⟨_, ?_, loop.invokes node raw line read⟩) ?_ ?_
  · simp [Node.withoutLines, Node.allWithoutLines_eq_map, same, sameNode, Expression.node, Mark.withoutLine,
      Node.partWithoutLines]
  · simp only [List.length_cons, List.length_append]
    omega
  · simp only [List.length_cons, List.length_append]
    omega

theorem InnerReads.reaches_methodCall (reads : InnerReads rounds inner depth) (loop : PostfixStep rounds inner step)
    {receiver : Expression} (before : ReachesBefore rounds inner depth step false receiver) (member : Member)
    (args : List Expression) (small : argsNesting args ≤ depth) :
    Reaches rounds inner step (.methodCall receiver member args) := by
  intro _ next behind position skipped stands _ enough
  obtain ⟨front, back, rfl, atReceiver, atCall⟩ := stands.exists_append
  cases atCall with
  | cons raw line atCall =>
    cases atCall with
    | cons memberRaw memberLine atArgs =>
      simp only [List.length_append, List.length_cons] at enough
      obtain ⟨parenRaw, parenLine, inside, rfl, run⟩ := reads.exists_args small next behind atArgs (by omega)
      obtain ⟨found, same, read⟩ := run (position + front.length + 3) skipped
      simp only [List.length_cons] at enough
      have reached := reads.reached_receiver step false before.open_ before.closed
        (member.lexeme.token memberRaw memberLine :: (Lexeme.sign .openParen).token parenRaw parenLine ::
          (inside ++ next :: behind)) position skipped atReceiver
        (fun _ => continues_arrow raw line _) (by simp; omega)
      rw [List.append_assoc, List.cons_append, List.cons_append, List.cons_append]
      refine reached.round (fun node sameNode => ⟨_, ?_,
        loop.calls node member raw memberRaw parenRaw line memberLine parenLine read⟩) ?_ ?_
      · simp [Node.withoutLines, Node.allWithoutLines_eq_map, same, sameNode, Expression.node,
          Mark.withoutLine]
      · simp; omega
      · simp; omega

theorem InnerReads.reaches_property (reads : InnerReads rounds inner depth) (loop : PostfixStep rounds inner step)
    {receiver : Expression} (before : ReachesBefore rounds inner depth step false receiver) (member : Member) :
    Reaches rounds inner step (.property receiver member) := by
  intro _ next behind position skipped stands continues enough
  obtain ⟨front, back, rfl, atReceiver, atAccess⟩ := stands.exists_append
  cases atAccess with
  | cons raw line atAccess =>
    cases atAccess with
    | cons memberRaw memberLine atEnd =>
      cases atEnd
      simp only [List.length_append, List.length_cons, List.length_nil] at enough
      have reached := reads.reached_receiver step false before.open_ before.closed
        (member.lexeme.token memberRaw memberLine :: next :: behind) position skipped atReceiver
        (fun _ => continues_arrow raw line _) (by simp; omega)
      rw [List.append_assoc, List.cons_append, List.cons_append, List.nil_append]
      refine reached.round (fun node sameNode => ⟨_, ?_,
        loop.accesses node member raw memberRaw line memberLine behind _ skipped continues.isRead
          (continues.noCall rfl)⟩) ?_ ?_
      · simp [Node.withoutLines, sameNode, Expression.node, Mark.withoutLine]
      · simp
      · simp; omega

end Kinds

theorem InnerReads.reaches (reads : InnerReads rounds inner depth) {step : Node → Parse (Node × Bool)}
    (loop : PostfixStep rounds inner step) (expression : Expression) (positive : expression.isNegative = false)
    (small : expression.nesting ≤ depth) : Reaches rounds inner step expression := by
  match expression with
  | .var name => exact reaches_var name
  | .string text => exact reaches_string text
  | .number false numeral => exact reaches_number numeral
  | .number true _ => cases positive
  | .constant name => exact reaches_constant name
  | .classConstant className name => exact reaches_classConstant className name
  | .staticProperty className name => exact reaches_staticProperty className name
  | .array false items => exact reads.reaches_shortArray items small
  | .array true items => exact reads.reaches_longArray items small
  | .call name args => exact reads.reaches_call name args small
  | .staticCall className name args => exact reads.reaches_staticCall className name args small
  | .creation className args => exact reads.reaches_creation className args small
  | .callOf callee args =>
    obtain ⟨smallCallee, smallArgs⟩ := Nat.max_le.mp small
    exact reads.reaches_callOf loop (.of_nesting smallCallee (reads.reaches loop callee)) args smallArgs
  | .methodCall receiver member args =>
    obtain ⟨smallReceiver, smallArgs⟩ := Nat.max_le.mp small
    exact reads.reaches_methodCall loop (.of_nesting smallReceiver (reads.reaches loop receiver)) member args smallArgs
  | .property receiver member =>
    exact reads.reaches_property loop (.of_nesting small (reads.reaches loop receiver)) member

/-! ### Expressions -/

theorem InnerReads.operand (reads : InnerReads rounds inner depth) (expression : Expression)
    (positive : expression.isNegative = false) (small : expression.nesting ≤ depth) :
    expression.ReadBy rounds (Parse.operand rounds inner) := by
  intro tokens rest position skipped stands follows enough
  obtain ⟨step, isLoop, loop⟩ := exists_postfixStep rounds inner
  obtain ⟨next, behind, rfl, continues⟩ := follows.exists_continues
  obtain ⟨first, middle, node, read, shorter, same, repeats⟩ := reads.reaches loop expression positive small
    behind position skipped stands continues.weaken (by simpa [Nat.add_assoc] using enough)
  exact ⟨node, same, operand_run isLoop loop read repeats follows.rests shorter⟩

/-- Every expression of an option map that nests no deeper than the parsers can is read as its tree. -/
theorem InnerReads.expression_zero (reads : InnerReads rounds inner depth) (expression : Expression)
    (small : expression.nesting ≤ depth) :
    expression.ReadBy rounds (Parse.expression rounds inner 0) := by
  intro tokens rest position skipped stands follows enough
  have someRounds : 0 < rounds := by omega
  cases negative : expression.isNegative with
  | false =>
    obtain ⟨node, same, read⟩ := reads.operand expression negative small position skipped stands follows enough
    refine ⟨node, same, expression_run ?_ follows someRounds⟩
    obtain ⟨next, behind, rfl, continues⟩ := follows.exists_continues
    obtain ⟨token, others, whole, opens⟩ := expression.showsLead behind stands continues.weaken
    rw [leads, negative] at opens
    rw [whole] at read ⊢
    rw [unary_run opens, read]
  | true =>
    cases expression with
    | number minus numeral =>
      obtain rfl : minus = true := negative
      cases stands with
      | cons raw line stands =>
        cases stands with
        | cons numberRaw numberLine stands =>
          cases stands
          simp only [List.length_cons, List.length_nil] at enough
          have read := reads.number small numeral numberRaw numberLine (position + 1) skipped follows
            (by omega)
          exact ⟨_, rfl, expression_run (unary_minus_run read) follows someRounds⟩
    | _ => cases negative

/-- An operand without accesses behind it. -/
theorem leaf_run {token : Token} {rest after : List Token} {doc : Option String} {node : Node}
    {position further skipped : Nat}
    (read : primary rounds inner ⟨token :: rest, doc, position, skipped⟩ =
      .ok (some node, ⟨after, none, further, skipped⟩))
    (opens : Opens ["(", "["] token rest) (rests : Rests after) (enough : after.length < rounds) :
    unary rounds inner ⟨token :: rest, doc, position, skipped⟩ =
      .ok (some node, ⟨after, none, further, skipped⟩) := by
  obtain ⟨step, isLoop, loop⟩ := exists_postfixStep rounds inner
  rw [unary_run opens]
  exact operand_run isLoop loop read (.refl _ _) rests enough

/-- Whatever nests less deep than the parsers can is read behind brackets. -/
theorem innerReads_ofDepth (rounds depth : Nat) : InnerReads rounds (Inner.ofDepth rounds depth) depth := by
  induction depth with
  | zero => exact ⟨fun _ small => absurd small (Nat.not_lt_zero _), nofun, nofun⟩
  | succ depth ih =>
    refine ⟨fun expression small => ih.expression_zero expression (by omega), ?_, ?_⟩
    · intro _ text doc raw line rest position skipped follows enough
      exact expression_run (leaf_run (primary_string text raw line rest doc position skipped)
        (opens_of_kind _ _ (.inr (.inl rfl))) follows.rests (by omega)) follows (by omega)
    · intro _ numeral raw line rest position skipped follows enough
      exact leaf_run (primary_number numeral raw line rest position skipped)
        (opens_of_kind _ _ (.inr (.inr rfl))) follows.rests (by omega)

end Parse

end FormHarvest
