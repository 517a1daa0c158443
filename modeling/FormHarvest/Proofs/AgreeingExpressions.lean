import FormHarvest.Proofs.AgreeingParsers

namespace FormHarvest

open FormHarvest.Bound

/-- The bracket of an array whose last spread has an operand does not end in three dots. -/
theorem Runs.Room.noDots {runs : Runs} {bound inside : Bound} {limit : Nat} {rest : List Token} {opener : Token}
    {close : String} (room : runs.Room bound limit (opener :: rest)) (within : Within close bound inside)
    (member : close ∈ closers) (opens : opener.closing? = some close) (nested : LevelBefore inside rest)
    (ends : bound.isSome = true → endsInDots rest = false) : NoDots runs.tokens inside := by
  cases bound with
  | none =>
    cases within
    exact nofun
  | some behind =>
    obtain ⟨-, suffix, -⟩ := room.within behind rfl
    exact noDots_of_endsInDots within member opens suffix (ends rfl) nested

theorem Runs.Room.isComplete {runs : Runs} {bound : Bound} {limit : Nat} {rest : List Token} {token : Token}
    (room : runs.Room bound limit (token :: rest)) (bounded : bound.isSome = true) : token.IsComplete rest := by
  obtain ⟨behind, isBound⟩ := Option.isSome_iff_exists.mp bounded
  obtain ⟨-, suffix, complete, -⟩ := room.within behind isBound
  exact complete.isComplete_of_suffix suffix

namespace Parse

variable {runs : Runs} {inner inner' : Inner} {bound : Bound} {limit : Nat} {before rest : List Token}
  {token : Token} {close : String}

/-- An array behind its opening bracket. -/
theorem agrees_arrayBehind (alike : runs.Alike inner inner') (member : close ∈ closers) (mark : Mark)
    (room : runs.Room bound (limit + 1) (token :: rest)) (ahead : Ahead bound (token :: rest))
    (opens : token.closing? = some close)
    (ends : bound.isSome = true → endsInDots rest = false) :
    runs.Agrees (array runs.rounds inner close mark) (array runs.otherRounds inner' close mark) rest
      fun _ after => runs.Room bound limit after := by
  obtain ⟨inside, within, roomInside, nested⟩ := room.enter ahead opens
  exact agrees_array alike member mark within (room.noDots within member opens nested ends) roomInside

theorem agrees_namedOperand (alike : runs.Alike inner inner') (doc : Option String) (mark : Mark)
    (room : runs.Room bound (limit + 1) (token :: rest)) (stops : HeadIn stopSigns bound)
    (name : token.kind = .name) :
    runs.Agrees (namedOperand runs.rounds inner token rest.head? doc mark)
      (namedOperand runs.otherRounds inner' token rest.head? doc mark) (token :: rest)
      (runs.Leaves bound limit (token :: rest)) := by
  have ahead := room.ahead_of_kind stops (by simp [name])
  have roomRest := room.tail ahead
  unfold namedOperand
  extract_lets word
  refine .ite (fun long => ?_) fun _ => .ite (fun function => ?_) fun _ => .ite (fun new => ?_) fun _ =>
    .ite (fun choice => ?_) fun _ => ?_
  · obtain ⟨named, paren⟩ := Bool.and_eq_true_iff.mp long
    cases rest with
    | nil => cases paren
    | cons second rest =>
      have aheadParen := roomRest.ahead_of_isSign stops paren (by decide)
      have ends (bounded : bound.isSome = true) : endsInDots rest = false :=
        (room.isComplete bounded).longArray (by simpa [isWordIn, name] using named) paren
      refine .advance room.filled (.advance roomRest.filled ?_)
      exact .andThen (agrees_arrayBehind alike (by decide) mark roomRest.exact_ aheadParen
        (Token.closing?_eq_paren.mpr paren) ends) fun _ after room => .pure (room.mono (Nat.le_of_lt roomRest.short))
  · have ends : ∃ signs, token.headEnds? rest.head? = some signs ∧ signs ⊆ ["=>", openBrace, ";"] := by
      rcases Bool.or_eq_true_iff.mp function with function | arrow
      · exact ⟨_, Token.headEnds?_of_function name (by simpa using function), by decide⟩
      · exact ⟨_, Token.headEnds?_of_arrow name (by simpa using arrow), by decide⟩
    obtain ⟨signs, ends, sub⟩ := ends
    exact .andThen (agrees_closure alike doc room stops ahead ends sub) fun _ after room => .pure room
  · exact .andThen (agrees_creation alike doc room stops name (by simpa using new)) fun _ after room => .pure room
  · obtain ⟨-, paren⟩ := Bool.and_eq_true_iff.mp choice
    cases rest with
    | nil => cases paren
    | cons second rest =>
      have aheadParen := roomRest.ahead_of_isSign stops paren (by decide)
      refine .advance room.filled (.advance roomRest.filled ?_)
      refine .andThen (agrees_enter (list_closes alike (by decide) _) roomRest.exact_ aheadParen
        (Token.closing?_eq_paren.mpr paren)) fun subject after room => ?_
      have room := room.mono (Nat.le_of_lt roomRest.short)
      exact agrees_bracketed alike room stops (by decide) Token.closing?_eq_brace.mpr
        (fun _ _ room => .pure room) (.pure room)
  · exact .andThen (agrees_named alike mark room stops name) fun _ after room => .pure room

theorem agrees_signOperand (alike : runs.Alike inner inner') (doc : Option String) (mark : Mark)
    (bare : runs.tail = [] ∨ doc = none)
    (room : runs.Room bound (limit + 1) (token :: rest)) (stops : HeadIn stopSigns bound) {kind : TokenKind}
    (same : token.kind = kind) :
    runs.Agrees (signOperand runs.rounds inner token kind doc mark)
      (signOperand runs.otherRounds inner' token kind doc mark) (token :: rest)
      (runs.Leaves bound limit (token :: rest)) := by
  refine .ite (fun bracket => ?_) fun _ => .ite (fun paren => ?_) fun _ => .ite (fun attribute_ => ?_) fun _ =>
    .ite (fun computed => ?_) fun _ => .setDoc bare (.pure ⟨room, fun _ ahead => ahead⟩)
  · have ahead := room.ahead_of_isSign stops bracket (by decide)
    have ends (bounded : bound.isSome = true) := (room.isComplete bounded).array bracket
    exact .advance room.filled (.andThen (agrees_arrayBehind alike (by decide) mark room ahead
      (Token.closing?_eq_bracket.mpr (by simp [bracket])) ends) fun _ after room => .pure room)
  · have ahead := room.ahead_of_isSign stops paren (by decide)
    refine .advance room.filled (.andThen (agrees_enter (list_closes alike (by decide) _) room ahead
      (Token.closing?_eq_paren.mpr paren)) fun nodes after room => ?_)
    split
    · exact .pure room
    · exact .pure room
  · refine .andThen (Runs.agrees_skipAttribute room stops attribute_) fun _ after skipped => .setDoc bare ?_
    obtain ⟨roomAfter, aheadAfter⟩ := skipped
    refine (alike.unary (roomAfter.mono (Nat.le_succ _)) stops).mono fun found behind left => ?_
    cases found with
    | some node => exact left
    | none => exact ⟨left.1, fun closed _ => left.2 closed (aheadAfter closed)⟩
  · have kind : token.kind = .unknown := by
      simpa [same] using (Bool.and_eq_true_iff.mp computed).1
    have roomRest := room.tail (room.ahead_of_kind stops (by simp [kind]))
    exact .advance room.filled
      (.andThen (Runs.Reads.agrees alike.primary roomRest stops) fun _ after room => .pure room)

theorem agrees_primary (alike : runs.Alike inner inner') :
    runs.Reads (primary runs.rounds inner) (primary runs.otherRounds inner') := by
  intro bound limit before room stops
  refine .peek (room.filled.imp_right List.length_pos_iff.mpr) ?_
  cases before with
  | nil => exact .pure ⟨room, fun _ ahead => ahead⟩
  | cons token rest =>
    refine .takeDoc room.filled fun doc bare => ?_
    extract_lets mark word
    have past (other : token.kind ≠ .punctuation ∧ token.kind ≠ .operator) : runs.Room bound limit rest :=
      room.tail (room.ahead_of_kind stops other)
    match kind : token.kind with
    | .variable => exact .advance room.filled (.pure (past (by simp [kind])))
    | .string => exact .advance room.filled (.pure (past (by simp [kind])))
    | .number => exact .advance room.filled (.pure (past (by simp [kind])))
    | .name =>
      have ahead := room.ahead_of_kind stops (by simp [kind])
      refine .peek (room.enough ahead) ?_
      rw [List.getElem?_cons_succ, ← List.head?_eq_getElem?]
      exact agrees_namedOperand alike doc mark room stops kind
    | .inlineHtml | .openTag | .closeTag | .docComment | .operator | .punctuation | .unknown =>
      exact agrees_signOperand alike doc mark bare room stops kind

theorem agrees_operand (alike : runs.Alike inner inner') :
    runs.Reads (operand runs.rounds inner) (operand runs.otherRounds inner') := by
  intro bound limit before room stops
  refine .andThen (agrees_primary alike room stops) fun found after left => ?_
  cases found with
  | none => exact .pure left
  | some node => exact .andThen (agrees_postfixes alike node left stops) fun node after room => .pure room

theorem agrees_wordOperand (alike : runs.Alike inner inner') (room : runs.Room bound (limit + 1) (token :: rest))
    (stops : HeadIn stopSigns bound) :
    runs.Agrees (wordOperand runs.rounds inner token) (wordOperand runs.otherRounds inner' token) (token :: rest)
      (runs.Leaves bound limit (token :: rest)) := by
  have behindName (name : token.kind = .name) : runs.Room bound limit rest :=
    room.tail (room.ahead_of_kind stops (by simp [name]))
  refine agrees_wordBefore room stops (fun name _ => .advance room.filled ?_)
    (agrees_wordBefore room stops (fun name function => .advance room.filled ?_) (agrees_operand alike room stops))
  · have roomRest := behindName name
    extract_lets word behindWord behindWord'
    refine .peek (roomRest.filled.imp_right List.length_pos_iff.mpr) ?_
    have atOperand (before : List Token) (roomOperand : runs.Room bound limit before) :
        runs.Agrees (behindWord ()) (behindWord' ()) before (runs.Leaves bound limit (token :: rest)) :=
      .andThen (Runs.Reads.agrees (alike.expression _) roomOperand stops) fun _ after room => .pure room
    refine .ite (fun from_ => ?_) fun _ => atOperand rest roomRest
    obtain ⟨-, from_⟩ := Bool.and_eq_true_iff.mp from_
    cases rest with
    | nil => cases from_
    | cons second rest =>
      have kind : second.kind = .name := kind_of_isWordIn from_
      exact .advance roomRest.filled (atOperand rest (roomRest.drop (roomRest.ahead_of_kind stops (by simp [kind]))))
  · have roomRest := behindName name
    have ahead : Ahead bound rest := by
      cases rest with
      | nil => cases function
      | cons second rest => exact roomRest.ahead_of_kind stops (by simp [kind_of_isWordIn function])
    refine (agrees_operand alike (roomRest.mono (Nat.le_succ _)) stops).mono fun found after left => ?_
    cases found with
    | some node => exact left
    | none => exact ⟨left.1, fun closed _ => left.2 closed ahead⟩

/-- Operators come before every bound. -/
theorem ahead_of_operator {operators : List String} (room : runs.Room bound limit (token :: rest))
    (stops : HeadIn stopSigns bound)
    (operator : (token.kind == .operator && operators.contains token.text) = true)
    (apart : ∀ text ∈ operators, text ∉ stopSigns) : Ahead bound (token :: rest) := by
  obtain ⟨kind, known⟩ := Bool.and_eq_true_iff.mp operator
  have sign : isSign (some token) token.text = true := by simpa [isSign] using Or.inr kind
  exact room.ahead_of_isSign stops sign (apart _ (by simpa using known))

theorem agrees_unary (alike : runs.Alike inner inner') :
    runs.Reads (unary runs.rounds inner) (unary runs.otherRounds inner') := by
  intro bound limit before room stops
  refine .peek (room.filled.imp_right List.length_pos_iff.mpr) ?_
  cases before with
  | nil => exact .pure ⟨room, fun _ ahead => ahead⟩
  | cons token rest =>
    have prefixed {f : Option Node → Node} (ahead : Ahead bound (token :: rest)) :
        runs.Agrees (advance >>= fun _ => inner.unary >>= fun operand => pure (some (f operand)))
          (advance >>= fun _ => inner'.unary >>= fun operand => pure (some (f operand))) (token :: rest)
          (runs.Leaves bound limit (token :: rest)) :=
      .advance room.filled
        (.andThen (Runs.Reads.agrees alike.unary (room.tail ahead) stops) fun _ after room => .pure room)
    refine .ite (fun operator => prefixed ?_) fun _ => .ite (fun step => prefixed ?_) fun _ =>
      .ite (fun reference => ?_) fun _ => ?_
    · exact ahead_of_operator room stops operator (by decide)
    · rcases Bool.or_eq_true_iff.mp step with step | step <;> exact room.ahead_of_isSign stops step (by decide)
    · have ahead := room.ahead_of_isSign stops reference (by decide)
      have roomOperand := (room.tail ahead).mono (Nat.le_succ _)
      refine .advance room.filled ((alike.unary roomOperand stops).mono fun found after left => ?_)
      cases found with
      | some node => exact left
      | none => exact ⟨left.1, fun closed _ => left.2 closed (ahead_of_reference room closed reference)⟩
    · have atWord := agrees_wordOperand alike room stops
      cases paren : isSign (some token) "(" with
      | false =>
        exact .peek_any room.filled fun _ _ => .peek_any room.filled fun _ _ => .ite_neg (by simp) (by simp) atWord
      | true =>
        have ahead := room.ahead_of_isSign stops paren (by decide)
        obtain ⟨inside, within, roomInside, -⟩ := room.enter ahead (Token.closing?_eq_paren.mpr paren)
        refine .peek (room.enough ahead) (.peek ?_ (.ite (fun cast => ?_) fun _ => atWord))
        · exact (roomInside.enough_inside within).imp_right Nat.succ_lt_succ
        · obtain ⟨both, closing⟩ := Bool.and_eq_true_iff.mp cast
          obtain ⟨-, word⟩ := Bool.and_eq_true_iff.mp both
          match rest with
          | [] => cases word
          | [_] => cases closing
          | type :: second :: rest =>
            have kind : type.kind = .name := kind_of_isWordIn word
            have roomSecond := roomInside.drop (roomInside.ahead_of_kind within.headIn (by simp [kind]))
            refine .advance room.filled (.advance roomInside.filled (.advance roomSecond.filled ?_))
            exact .andThen (Runs.Reads.agrees alike.unary (roomSecond.pass within (by decide)) stops)
              fun _ after room => .pure room

theorem agrees_choice (alike : runs.Alike inner inner') (left : Node)
    (room : runs.Room bound (limit + 1) (token :: rest)) (stops : HeadIn stopSigns bound)
    (ahead : Ahead bound (token :: rest)) :
    runs.Agrees (choice inner left) (choice inner' left) (token :: rest)
      fun _ after => runs.Room bound limit after := by
  refine .advance room.filled (agrees_takeSign (room.tail ahead) stops (by decide) fun short after room => ?_)
  refine .ite (fun _ => ?_) fun _ => ?_
  · exact .andThen (Runs.Reads.agrees (alike.expression _) room stops) fun _ after room => .pure room
  refine .andThen (Runs.Reads.agrees (alike.expression 0) room stops) fun middle after room => ?_
  refine agrees_takeSign room stops (by decide) fun colon after room => .ite (fun _ => ?_) fun _ => ?_
  · exact .andThen (Runs.Reads.agrees (alike.expression _) room stops) fun _ after room => .pure room
  · exact .andThen (.pure room) fun _ after room => .pure room

/-- Operators between operands come before every bound. -/
theorem ahead_of_binaryOperator? {operator : String × Binding} (room : runs.Room bound limit (token :: rest))
    (stops : HeadIn stopSigns bound) (known : binaryOperator? token = some operator) :
    Ahead bound (token :: rest) := by
  unfold binaryOperator? at known
  split at known
  · rename_i kind
    have operators :
        (token.kind == .operator && ((signBindings ++ wordBindings).map Prod.fst).contains token.text) = true := by
      have same := List.find?_some known
      have member := List.mem_of_find?_eq_some known
      simp only [kind, beq_self_eq_true, Bool.true_and, List.contains_iff_mem]
      exact (eq_of_beq same) ▸ List.mem_map_of_mem member
    exact ahead_of_operator room stops operators (by decide)
  · rename_i kind
    exact room.ahead_of_kind stops (by simp [kind])
  · cases known

theorem agrees_expressionStep (alike : runs.Alike inner inner') (least : Nat) (stops : HeadIn stopSigns bound)
    (left : Node) (before : List Token) (room : runs.Room bound limit before) :
    runs.Agrees (expressionStep inner least left) (expressionStep inner' least left) before fun result after =>
      if result.2 then runs.Room bound limit after ∧ after.length < before.length
      else runs.Room bound limit after := by
  refine .peek (room.filled.imp_right List.length_pos_iff.mpr) ?_
  cases before with
  | nil => exact .pure room
  | cons token rest =>
    have positive : (token :: rest).length ≤ limit := Nat.le_of_lt room.short
    have operand {f : Option Node → Node} {after : List Token} (least : Nat)
        (roomAfter : runs.Room bound (token :: rest).length after) :
        runs.Agrees (inner.expression least >>= fun right => pure (f right, true))
          (inner'.expression least >>= fun right => pure (f right, true)) after fun result after =>
            if result.2 then runs.Room bound limit after ∧ after.length < (token :: rest).length
            else runs.Room bound limit after :=
      .andThen (Runs.Reads.agrees (alike.expression least) roomAfter stops) fun right behind room =>
        .pure ⟨room.mono positive, room.short⟩
    refine .ite (fun assignment => .ite (fun _ => .pure room) fun _ => ?_) fun _ => .ite (fun question =>
      .ite (fun _ => .pure room) fun _ => ?_) fun _ => ?_
    · have ahead := ahead_of_operator room stops assignment (by decide)
      refine .advance room.filled ?_
      exact agrees_takeSign (room.exact_.tail ahead) stops (by decide) fun _ after room => operand _ room
    · have ahead := room.ahead_of_isSign stops question (by decide)
      exact .andThen (agrees_choice alike left room.exact_ stops ahead) fun node after room =>
        .pure ⟨room.mono positive, room.short⟩
    · cases known : binaryOperator? token with
      | none => exact .pure room
      | some operator =>
        obtain ⟨name, binding⟩ := operator
        have ahead := ahead_of_binaryOperator? room stops known
        refine .ite (fun _ => .pure room) fun _ => ?_
        exact .advance room.filled (operand _ (room.exact_.tail ahead))

theorem agrees_expression (alike : runs.Alike inner inner') (least : Nat) :
    runs.Reads (expression runs.rounds inner least) (expression runs.otherRounds inner' least) := by
  intro bound limit before room stops
  rw [expression_eq, expression_eq]
  refine .andThen (agrees_unary alike room stops) fun found after left => ?_
  cases found with
  | none => exact .pure left
  | some first =>
    exact .andThen (.repeatStep (agrees_expressionStep alike least stops) left) fun node after room => .pure room

end Parse

end FormHarvest
