import FormHarvest.Proofs.ParserParts
import FormHarvest.Proofs.Spelled

namespace FormHarvest

namespace Parse

variable {rounds : Nat} {inner : Inner}

theorem typeStep_spells (stops : List String) (depth : Nat) {start before : List Token} {done : List Sign}
    (spelled : Spelled start done before) :
    (typeStep stops depth).Yields before fun _ after => Spelled start done after := by
  refine .bind (.peek (.ite (fun _ => .pure spelled) fun _ => .ite (fun _ => .pure spelled) fun _ => ?_))
  refine .ite (fun _ => .bind (.advance (.pure spelled.tail))) fun _ => ?_
  refine .ite (fun _ => .ite (fun _ => .pure spelled) fun _ => ?_) fun _ => ?_
  · exact .bind (.advance (.pure spelled.tail))
  · exact .bind (.advance (.pure spelled.tail))

theorem skipType_spells (stops : List String) : (skipType rounds stops).Spells fun _ => [] := by
  intro start done before spelled
  simp only [List.append_nil]
  rw [skipType_eq]
  exact .map (.repeatStep (fun depth _ => typeStep_spells stops depth) spelled)

theorem attributeStep_spells (depth : Nat) {start before : List Token} {done : List Sign}
    (spelled : Spelled start done before) :
    (attributeStep depth).Yields before fun _ after => Spelled start done after := by
  refine .ite (fun _ => .pure spelled) fun _ => .bind (.peek (.ite (fun _ => .pure spelled) fun _ => ?_))
  refine .andThen spelled.advance fun token before spelled => ?_
  exact .ite (fun _ => .pure spelled) fun _ => .ite (fun _ => .pure spelled) fun _ => .pure spelled

theorem skipAttribute_spells : (skipAttribute rounds).Spells fun _ => [] := by
  intro start done before spelled
  simp only [List.append_nil]
  rw [skipAttribute_eq]
  exact .andThen spelled.advance fun _ before spelled =>
    .map (.repeatStep (fun depth _ => attributeStep_spells depth) spelled)

theorem importsStep_spells (depth : Int) {start before : List Token} {done : List Sign}
    (spelled : Spelled start done before) :
    (importsStep depth).Yields before fun _ after => Spelled start done after := by
  refine .bind (.peek (.ite (fun _ => .pure spelled) fun _ => ?_))
  refine .andThen spelled.advance fun token before spelled => .ite (fun _ => .pure spelled) fun _ => ?_
  refine .ite (fun _ => .ite (fun _ => ?_) fun _ => .pure spelled) fun _ => ?_
  · exact .andThen (spelled.takeSign ";") fun _ _ spelled => .pure spelled
  · exact .ite (fun _ => .pure spelled) fun _ => .pure spelled

theorem skipImports_spells : (skipImports rounds).Spells fun _ => [] := by
  intro start done before spelled
  simp only [List.append_nil]
  rw [skipImports_eq]
  exact .andThen spelled.advance fun _ before spelled =>
    .map (.repeatStep (fun depth _ => importsStep_spells depth) spelled)

theorem listStep_spells (spells : inner.Spells) (close : String) (separators : List String) (nodes : List Node)
    {start before : List Token} {done : List Sign} (spelled : Spelled start (done ++ signs nodes.reverse) before) :
    (listStep inner close separators nodes).Yields before fun result after =>
      Spelled start (done ++ signs result.1.reverse) after := by
  cases before with
  | nil => exact .bind (.peek (.pure spelled))
  | cons token rest =>
    refine .bind (.peek (.ite (fun _ => .bind (.advance (.pure spelled.tail))) fun _ => ?_))
    refine .ite (fun _ => .bind (.advance (.pure spelled.tail))) fun _ => .bind (.peek ?_)
    refine .ite (fun _ => .bind (.advance (.bind (.advance (.pure spelled.tail.tail))))) fun _ => ?_
    refine .andThen (spells.expression 0 spelled) fun found before spelled => ?_
    cases found with
    | none => exact .bind (.skip (.pure (by simpa using spelled.tail)))
    | some node => exact .pure (by simpa using spelled)

theorem list_spells (spells : inner.Spells) (close : String) (separators : List String) :
    (list rounds inner close separators).Spells signs := by
  intro start done before spelled
  rw [list_eq]
  exact .map (.repeatStep (fun nodes _ => listStep_spells spells close separators nodes) (by simpa using spelled))

theorem arguments_spells (spells : inner.Spells) : (arguments rounds inner).Spells signs := by
  intro start done before spelled
  exact .andThen spelled.advance fun _ _ spelled => list_spells spells ")" [","] spelled

theorem optionalArguments_spells (spells : inner.Spells) :
    (optionalArguments rounds inner).Spells signs := by
  intro start done before spelled
  refine .bind (.peek (.ite (fun _ => arguments_spells spells spelled) fun _ => .pure ?_))
  simpa using spelled

theorem optionalBlock_spells (spells : inner.Spells) : (optionalBlock inner).Spells signs := by
  intro start done before spelled
  refine .andThen (spelled.takeSign openBrace) fun _ _ spelled => .ite (fun _ => ?_) fun _ => .pure ?_
  · exact spells.statements (some closeBrace) spelled
  · simpa using spelled

theorem arrayItem_spells (spells : inner.Spells) (items : List (ArrayItem Node)) (unpack byRef : Bool)
    {start before : List Token} {done : List Sign}
    (spelled : Spelled start (done ++ signs (items.reverse.map .item)) before) :
    (arrayItem inner items unpack byRef).Yields before fun result after =>
      Spelled start (done ++ signs (result.1.reverse.map .item)) after := by
  refine .andThen (spells.expression 0 spelled) fun first before spelled => ?_
  cases first with
  | none => exact .bind (.skip (.pure (by simpa using spelled.tail)))
  | some first =>
    refine .andThen (spelled.takeSign "=>") fun keyed before spelled => ?_
    refine .ite (fun _ => ?_) fun _ => .pure (by simpa using spelled)
    refine .andThen (spelled.takeSign "&") fun byRef before spelled => ?_
    refine .andThen (spells.expression 0 spelled) fun value before spelled => ?_
    exact .pure (by simpa using spelled)

theorem arrayStep_spells (spells : inner.Spells) (close : String) (items : List (ArrayItem Node))
    {start before : List Token} {done : List Sign}
    (spelled : Spelled start (done ++ signs (items.reverse.map .item)) before) :
    (arrayStep inner close items).Yields before fun result after =>
      Spelled start (done ++ signs (result.1.reverse.map .item)) after := by
  cases before with
  | nil => exact .bind (.peek (.pure spelled))
  | cons token rest =>
    refine .bind (.peek (.ite (fun _ => .bind (.advance (.pure spelled.tail))) fun _ => ?_))
    refine .ite (fun _ => .bind (.advance (.pure spelled.tail))) fun _ => ?_
    refine .andThen (spelled.takeSign "...") fun unpack before spelled => ?_
    refine .ite (fun _ => arrayItem_spells spells items unpack false spelled) fun _ => ?_
    exact .andThen (spelled.takeSign "&") fun byRef before spelled =>
      arrayItem_spells spells items unpack byRef spelled

theorem array_spells (spells : inner.Spells) (close : String) (mark : Mark) :
    (array rounds inner close mark).Spells Node.signs := by
  intro start done before spelled
  have kept : (repeatStep (arrayStep inner close) rounds []).Yields before fun items after =>
      Spelled start (done ++ signs (items.reverse.map .item)) after :=
    .repeatStep (fun items _ => arrayStep_spells spells close items) (by simpa using spelled)
  rw [array_eq]
  exact .map (kept.mono fun items after spelled => by simpa using spelled)

theorem closureEnd_spells (spells : inner.Spells) (arrow : Bool) (parameters : List Node) (mark : Mark)
    {start before : List Token} {done : List Sign} (spelled : Spelled start (done ++ signs parameters) before) :
    (closureEnd rounds inner arrow parameters mark).Yields before fun node after =>
      Spelled start (done ++ node.signs) after := by
  unfold closureEnd
  refine .andThen (spelled.takeSign ":") fun _ before spelled => ?_
  extract_lets behindBody behindType
  have atBody (before : List Token) (spelled : Spelled start (done ++ signs parameters) before) :
      (behindType ()).Yields before fun node after => Spelled start (done ++ node.signs) after := by
    refine .ite (fun _ => ?_) fun _ => ?_
    · refine .andThen (spelled.takeSign "=>") fun _ before spelled => .ite (fun _ => ?_) fun _ => ?_
      · refine .andThen (spells.expression assignmentPrecedence spelled) fun body after spelled => ?_
        exact .bind (.pure (.pure (by simpa using spelled)))
      · exact .bind (.pure (.pure (by simpa using spelled)))
    · refine .andThen (optionalBlock_spells spells spelled) fun body after spelled => .pure ?_
      simpa using spelled
  refine .ite (fun _ => ?_) fun _ => atBody before spelled
  exact .andThen (skipType_spells _ spelled) fun _ after spelled => atBody after (by simpa using spelled)

theorem closure_spells (spells : inner.Spells) (doc : Option String) :
    (closure rounds inner doc).Spells Node.signs := by
  intro start done before spelled
  unfold closure
  refine .andThen spelled.advance fun keyword before spelled => ?_
  extract_lets line arrow behindParameters
  refine .andThen (spelled.takeSign "&") fun _ before spelled => ?_
  refine .andThen (spelled.takeSign "(") fun _ before spelled => ?_
  have atParameters (parameters : List Node) (before : List Token)
      (spelled : Spelled start (done ++ signs parameters) before) :
      (behindParameters parameters).Yields before fun node after =>
        Spelled start (done ++ node.signs) after := by
    have ends (before : List Token) (spelled : Spelled start (done ++ signs parameters) before) :
        (closureEnd rounds inner arrow parameters { line, doc }).Yields before fun node after =>
          Spelled start (done ++ node.signs) after :=
      closureEnd_spells spells arrow parameters { line, doc } spelled
    refine .bind (.peek (.bind (.peek (.ite (fun _ => ?_) fun _ => ends before spelled))))
    refine .andThen spelled.advance fun _ before spelled => ?_
    refine .andThen spelled.advance fun _ before spelled => ?_
    exact .andThen (list_spells spells ")" _ spelled) fun _ before spelled => ends before spelled.drop
  refine .ite (fun _ => ?_) fun _ => .bind (.pure (atParameters [] before (by simpa using spelled)))
  exact .andThen (list_spells spells ")" _ spelled) fun parameters before spelled =>
    atParameters parameters before spelled

theorem computedClassStep_spells (name : String) {start before : List Token} {done : List Sign}
    (spelled : Spelled start done before) :
    (computedClassStep name).Yields before fun _ after => Spelled start done after := by
  refine .bind (.peek (.bind (.peek (.ite (fun _ => ?_) fun _ => .pure spelled))))
  refine .andThen spelled.advance fun _ before spelled => ?_
  exact .andThen spelled.advance fun _ before spelled => .pure spelled

theorem computedClass_spells (name : String) : (computedClass rounds name).Spells fun _ => [] := by
  intro start done before spelled
  simp only [List.append_nil]
  rw [computedClass_eq]
  exact .repeatStep (fun name _ => computedClassStep_spells name) spelled

theorem creation_spells (spells : inner.Spells) (doc : Option String) :
    (creation rounds inner doc).Spells Node.signs := by
  intro start done before spelled
  unfold creation
  refine .andThen spelled.advance fun keyword before spelled => ?_
  extract_lets line behindClass
  refine .bind (.peek (.ite (fun _ => ?_) fun _ => ?_))
  · refine .andThen spelled.advance fun _ before spelled => ?_
    refine .andThen (optionalArguments_spells spells spelled) fun args before spelled => ?_
    refine .andThen (skipType_spells _ spelled) fun _ before spelled => ?_
    refine .andThen (optionalBlock_spells spells spelled) fun body after spelled => .pure ?_
    simpa using spelled
  have atClass (className : String) (before : List Token) (spelled : Spelled start done before) :
      (behindClass className).Yields before fun node after =>
        Spelled start (done ++ node.signs) after := by
    refine .andThen (optionalArguments_spells spells spelled) fun args after spelled => .pure ?_
    simpa using spelled
  refine .andThen (spelled.takeSign "(") fun _ before spelled => ?_
  refine .ite (fun _ => ?_) fun _ => .ite (fun _ => ?_) fun _ => .ite (fun _ => ?_) fun _ => ?_
  · exact .andThen spelled.advance fun name before spelled => .bind (.pure (atClass _ before spelled))
  · refine .andThen spelled.advance fun name before spelled => ?_
    exact .andThen (computedClass_spells _ spelled) fun name before spelled =>
      atClass name before spelled.drop
  · exact .andThen (list_spells spells ")" _ spelled) fun _ before spelled =>
      .bind (.pure (atClass _ before spelled.drop))
  · exact .bind (.pure (atClass _ before spelled))

theorem staticAccess_spells (spells : inner.Spells) (className : String) (mark : Mark) :
    (staticAccess rounds inner className mark).Spells Node.signs := by
  intro start done before spelled
  refine .andThen spelled.advance fun _ before spelled => .bind (.peek ?_)
  cases before with
  | nil => exact .pure (by simpa using spelled)
  | cons member rest =>
    simp only [Nat.sub_self, List.getElem?_cons_zero]
    split
    · refine .andThen spelled.advance fun _ before spelled => ?_
      refine .bind (.peek (.ite (fun _ => ?_) fun _ => .pure (by simpa using spelled)))
      refine .andThen (arguments_spells spells spelled) fun args after spelled => .pure ?_
      simpa using spelled
    · exact .andThen spelled.advance fun _ before spelled => .pure (by simpa using spelled)
    · refine .andThen (spelled.takeSign openBrace) fun _ before spelled => ?_
      refine .ite (fun _ => ?_) fun _ => .pure (by simpa using spelled)
      refine .andThen (list_spells spells closeBrace _ spelled) fun inside after spelled => .pure ?_
      simpa using spelled

/-- Behind the name of a member a call has one sign more than a property. -/
theorem called_spells (rounds : Nat) (spells : inner.Spells) {start before : List Token} {done : List Sign}
    {node : Node} {name : String} {line : Int} {property : Node}
    (same : property.signs = node.signs)
    (spelled : Spelled start (done ++ node.signs ++ [.call name line]) before) :
    Yields (do
        if isSign (← peek) "(" then
          return (.methodCall node name (← arguments rounds inner) { line }, true)
        else return (property, true))
      before fun result after => Spelled start (done ++ result.1.signs) after := by
  refine .bind (.peek (.ite (fun _ => ?_) fun _ => .pure ?_))
  · refine .andThen (arguments_spells spells spelled) fun args after spelled => .pure ?_
    simpa using spelled
  · rw [same]
    exact spelled.drop

theorem member_spells (spells : inner.Spells) {start before : List Token} {done : List Sign} {node : Node}
    (spelled : Spelled start (done ++ node.signs) before) :
    (member rounds inner node).Yields before fun result after =>
      Spelled start (done ++ result.1.signs) after := by
  refine .bind (.advance (.bind (.peek ?_)))
  have spelled := spelled.tail
  cases ahead : before.tail with
  | nil => exact .pure (ahead ▸ spelled)
  | cons member rest =>
    rw [ahead] at spelled
    rw [Nat.sub_self, List.getElem?_cons_zero]
    have atName (name : String) (before : List Token)
        (spelled : Spelled start (done ++ node.signs ++ [.call name member.line]) before) :=
      called_spells rounds spells (Node.signs_property ⟨member.line, none⟩ name node) spelled
    dsimp only
    split
    · rename_i kind
      exact .bind (.advance (.bind (.pure (atName _ _ (spelled.sign ⟨.inl ⟨kind, rfl⟩, rfl⟩)))))
    · rename_i kind
      exact .bind (.advance (.bind (.pure (atName _ _ (spelled.sign ⟨.inr (.inl ⟨kind, rfl⟩), rfl⟩)))))
    · refine .bind (.takeSign (fun brace => ?_) (.bind (.pure (.pure spelled))))
      have named : Spelled start (done ++ node.signs ++ [.call computedMember member.line]) rest :=
        spelled.sign ⟨.inr (.inr ⟨brace, rfl⟩), rfl⟩
      exact .andThen (list_spells spells closeBrace _ named) fun _ before spelled =>
        .bind (.pure (atName _ _ spelled.drop))

theorem staticMember_spells (spells : inner.Spells) {start before : List Token} {done : List Sign} {node : Node}
    (spelled : Spelled start (done ++ node.signs) before) :
    (staticMember rounds inner node).Yields before fun result after =>
      Spelled start (done ++ result.1.signs) after := by
  refine .bind (.advance (.bind (.peek ?_)))
  have spelled := spelled.tail
  cases ahead : before.tail with
  | nil => exact .pure (ahead ▸ spelled)
  | cons member rest =>
    rw [ahead] at spelled
    rw [Nat.sub_self, List.getElem?_cons_zero]
    dsimp only
    split
    · rename_i kind
      have named : Spelled start (done ++ node.signs ++ [.call member.text member.line]) rest :=
        spelled.sign ⟨.inl ⟨kind, rfl⟩, rfl⟩
      exact .bind (.advance (called_spells rounds spells (by simp) named))
    · exact .bind (.advance (.pure (by simpa using spelled.skip)))
    · exact .pure spelled

theorem postfixStep_spells (spells : inner.Spells) (node : Node) {start before : List Token} {done : List Sign}
    (spelled : Spelled start (done ++ node.signs) before) :
    (postfixStep rounds inner node).Yields before fun result after =>
      Spelled start (done ++ result.1.signs) after := by
  cases before with
  | nil => exact .bind (.peek (.pure spelled))
  | cons token rest =>
    refine .bind (.peek (.ite (fun _ => member_spells spells spelled) fun _ =>
      .ite (fun _ => staticMember_spells spells spelled) fun _ => .ite (fun _ => ?_) fun _ =>
      .ite (fun _ => ?_) fun _ => .ite (fun _ => ?_) fun _ => .pure spelled))
    · refine .andThen spelled.advance fun _ before spelled => ?_
      refine .andThen (list_spells spells "]" _ spelled) fun index after spelled => .pure ?_
      simpa using spelled
    · refine .andThen (arguments_spells spells spelled) fun args after spelled => .pure ?_
      simpa using spelled
    · exact .andThen spelled.advance fun _ before spelled => .pure (by simpa using spelled)

theorem postfixes_spells (spells : inner.Spells) {start before : List Token} {done : List Sign}
    {node : Node} (spelled : Spelled start (done ++ node.signs) before) :
    (postfixes rounds inner node).Yields before fun node after =>
      Spelled start (done ++ node.signs) after := by
  rw [postfixes_eq]
  exact .repeatStep (fun node _ => postfixStep_spells spells node) spelled

theorem named_spells (spells : inner.Spells) (token : Token) (next : Option Token) (mark : Mark) :
    (named rounds inner token next mark).Spells Node.signs := by
  intro start done before spelled
  refine .andThen spelled.advance fun _ before spelled => .ite (fun _ => ?_) fun _ => ?_
  · refine .andThen (arguments_spells spells spelled) fun args after spelled => .pure ?_
    simpa using spelled
  · refine .ite (fun _ => staticAccess_spells spells _ mark spelled) fun _ => .pure ?_
    simpa using spelled

theorem namedOperand_spells (spells : inner.Spells) (token : Token) (next : Option Token) (doc : Option String)
    (mark : Mark) : (namedOperand rounds inner token next doc mark).Spells fun node => signs node.toList := by
  intro start done before spelled
  unfold namedOperand
  refine .ite (fun _ => ?_) fun _ => .ite (fun _ => ?_) fun _ => .ite (fun _ => ?_) fun _ =>
    .ite (fun _ => ?_) fun _ => ?_
  · refine .bind (.advance (.bind (.advance ?_)))
    refine .andThen (array_spells spells ")" mark spelled.tail.tail) fun node after spelled => ?_
    exact .pure (by simpa using spelled)
  · exact .andThen (closure_spells spells doc spelled) fun node after spelled => .pure (by simpa using spelled)
  · exact .andThen (creation_spells spells doc spelled) fun node after spelled => .pure (by simpa using spelled)
  · refine .bind (.advance (.bind (.advance ?_)))
    refine .andThen (list_spells spells ")" _ spelled.tail.tail) fun subject before spelled => ?_
    refine .andThen (spelled.takeSign openBrace) fun _ before spelled => .ite (fun _ => ?_) fun _ => ?_
    · refine .andThen (list_spells spells closeBrace _ spelled) fun arms after spelled => .pure ?_
      simpa using spelled
    · exact .bind (.pure (.pure (by simpa using spelled)))
  · exact .andThen (named_spells spells token _ mark spelled) fun node after spelled =>
      .pure (by simpa using spelled)

/-- A doc comment that goes over from brackets to what stands in them changes no sign. -/
theorem signOperand_spells (spells : inner.Spells) (token : Token) (kind : TokenKind) (doc : Option String)
    (mark : Mark) : (signOperand rounds inner token kind doc mark).Spells fun node => signs node.toList := by
  intro start done before spelled
  refine .ite (fun _ => ?_) fun _ => .ite (fun _ => ?_) fun _ => .ite (fun _ => ?_) fun _ =>
    .ite (fun _ => ?_) fun _ => .bind (.setDoc (.pure (by simpa using spelled)))
  · refine .andThen spelled.advance fun _ before spelled => ?_
    refine .andThen (array_spells spells "]" mark spelled) fun node after spelled => .pure ?_
    simpa using spelled
  · refine .andThen spelled.advance fun _ before spelled => ?_
    refine .andThen (list_spells spells ")" _ spelled) fun inside after spelled => ?_
    split
    · refine .pure ?_
      split <;> simpa using spelled
    · exact .pure (by simpa using spelled)
  · refine .andThen (skipAttribute_spells spelled) fun _ before spelled => ?_
    exact .bind (.setDoc (spells.unary spelled.drop))
  · refine .andThen spelled.advance fun _ before spelled => ?_
    exact .andThen (spells.primary spelled) fun node after spelled => .pure (by simpa using spelled)

/-- Strings and numbers are signs of their own. -/
theorem primary_spells (spells : inner.Spells) :
    (primary rounds inner).Spells fun node => signs node.toList := by
  intro start done before spelled
  cases before with
  | nil => exact .bind (.peek (.pure (by simpa using spelled)))
  | cons token rest =>
    refine .bind (.peek (.bind (.takeDoc fun doc => ?_)))
    extract_lets mark word
    split
    · exact .andThen spelled.advance fun _ before spelled => .pure (by simpa using spelled)
    · rename_i kind
      have written : Spelled start (done ++ [.text token.text token.interpolated token.line]) rest :=
        spelled.sign ⟨kind, rfl, rfl, rfl⟩
      exact .bind (.advance (.pure (by simpa using written)))
    · rename_i kind
      have written : Spelled start (done ++ [.number token.text token.line]) rest :=
        spelled.sign ⟨kind, 0, by simp, fun _ => rfl⟩
      exact .bind (.advance (.pure (by simpa using written)))
    · exact .bind (.peek (namedOperand_spells spells token _ doc mark spelled))
    · exact signOperand_spells spells token token.kind doc mark spelled

theorem operand_spells (spells : inner.Spells) :
    (operand rounds inner).Spells fun node => signs node.toList := by
  intro start done before spelled
  refine .andThen (primary_spells spells spelled) fun found before spelled => ?_
  cases found with
  | none => exact .pure spelled
  | some node =>
    refine .andThen (postfixes_spells spells (by simpa using spelled)) fun node after spelled => ?_
    exact .pure (by simpa using spelled)

/-- A sign before a number becomes part of the number, any other prefix holds its operand. -/
theorem prefixed_spells {start before : List Token} {done : List Sign} (token : Token)
    {operand : Option Node} (spelled : Spelled start (done ++ signs operand.toList) before) :
    Spelled start (done ++ (prefixed token operand).signs) before := by
  unfold prefixed
  split
  · rename_i value raw mark _
    have spelled : Spelled start (done ++ [.number raw mark.line]) before := by simpa using spelled
    have negative : Spelled start (done ++ [.number ("-" ++ raw) token.line]) before := by
      refine spelled.reread rfl fun number written => ?_
      obtain ⟨kind, minuses, rfl, -⟩ := written
      refine ⟨kind, minuses + 1, ?_, fun none => absurd none (by omega)⟩
      rw [List.replicate_succ, ← String.append_assoc, ← List.singleton_append, String.ofList_append]
    simpa using negative
  · simpa using spelled
  · simpa using spelled

theorem wordOperand_spells (spells : inner.Spells) (token : Token) :
    (wordOperand rounds inner token).Spells fun node => signs node.toList := by
  intro start done before spelled
  refine .bind (.peek (.ite (fun _ => ?_) fun _ => .bind (.peek ?_)))
  · extract_lets word behindWord
    refine .andThen spelled.advance fun _ before spelled => .bind (.peek ?_)
    have atOperand (before : List Token) (spelled : Spelled start done before) :
        (behindWord ()).Yields before fun node after =>
          Spelled start (done ++ signs node.toList) after := by
      refine .andThen (spells.expression assignmentPrecedence spelled) fun operand after spelled => ?_
      exact .pure (by simpa using spelled)
    refine .ite (fun _ => ?_) fun _ => atOperand before spelled
    exact .andThen spelled.advance fun _ before spelled => atOperand before spelled
  · refine .ite (fun _ => ?_) fun _ => operand_spells spells spelled
    exact .andThen spelled.advance fun _ before spelled => operand_spells spells spelled

theorem unary_spells (spells : inner.Spells) :
    (unary rounds inner).Spells fun node => signs node.toList := by
  intro start done before spelled
  cases before with
  | nil => exact .bind (.peek (.pure (by simpa using spelled)))
  | cons token rest =>
    refine .bind (.peek (.ite (fun _ => ?_) fun _ => .ite (fun _ => ?_) fun _ =>
      .ite (fun _ => ?_) fun _ => .bind (.peek (.bind (.peek (.ite (fun _ => ?_) fun _ =>
        wordOperand_spells spells token spelled))))))
    · refine .andThen spelled.advance fun _ before spelled => ?_
      refine .andThen (spells.unary spelled) fun operand after spelled => .pure ?_
      simpa using prefixed_spells token spelled
    · refine .andThen spelled.advance fun _ before spelled => ?_
      refine .andThen (spells.unary spelled) fun operand after spelled => .pure ?_
      simpa using spelled
    · exact .andThen spelled.advance fun _ before spelled => spells.unary spelled
    · refine .andThen spelled.advance fun _ before spelled => ?_
      refine .andThen spelled.advance fun type before spelled => ?_
      refine .andThen spelled.advance fun _ before spelled => ?_
      refine .andThen (spells.unary spelled) fun operand after spelled => .pure ?_
      simpa using spelled

theorem joined_spells {start before : List Token} {done : List Sign} {left : Node}
    (kind : String) {right : Option Node}
    (spelled : Spelled start (done ++ left.signs ++ signs right.toList) before) :
    Spelled start (done ++ (joined kind left right).signs) before := by
  simpa [joined] using spelled

theorem choice_spells (spells : inner.Spells) {start before : List Token} {done : List Sign}
    {left : Node} (spelled : Spelled start (done ++ left.signs) before) :
    (choice inner left).Yields before fun node after => Spelled start (done ++ node.signs) after := by
  refine .andThen spelled.advance fun _ before spelled => ?_
  refine .andThen (spelled.takeSign ":") fun _ before spelled => .ite (fun _ => ?_) fun _ => ?_
  · refine .andThen (spells.expression _ spelled) fun right after spelled => .pure ?_
    exact joined_spells _ spelled
  refine .andThen (spells.expression 0 spelled) fun middle before spelled => ?_
  refine .andThen (spelled.takeSign ":") fun _ before spelled => .ite (fun _ => ?_) fun _ => ?_
  · refine .andThen (spells.expression _ spelled) fun right after spelled => .pure ?_
    simpa using spelled
  · exact .bind (.pure (.pure (by simpa using spelled)))

theorem expressionStep_spells (spells : inner.Spells) (least : Nat) (left : Node) {start before : List Token}
    {done : List Sign} (spelled : Spelled start (done ++ left.signs) before) :
    (expressionStep inner least left).Yields before fun result after =>
      Spelled start (done ++ result.1.signs) after := by
  cases before with
  | nil => exact .bind (.peek (.pure spelled))
  | cons token rest =>
    refine .bind (.peek (.ite (fun _ => .ite (fun _ => .pure spelled) fun _ => ?_) fun _ =>
      .ite (fun _ => .ite (fun _ => .pure spelled) fun _ => ?_) fun _ => ?_))
    · refine .andThen spelled.advance fun _ before spelled => ?_
      refine .andThen (spelled.takeSign "&") fun _ before spelled => ?_
      refine .andThen (spells.expression _ spelled) fun right after spelled => .pure ?_
      exact joined_spells _ spelled
    · exact .andThen (choice_spells spells spelled) fun node after spelled => .pure spelled
    · split
      · exact .pure spelled
      · refine .ite (fun _ => .pure spelled) fun _ => ?_
        refine .andThen spelled.advance fun _ before spelled => ?_
        refine .andThen (spells.expression _ spelled) fun right after spelled => .pure ?_
        exact joined_spells _ spelled

theorem expression_spells (spells : inner.Spells) (least : Nat) :
    (expression rounds inner least).Spells fun node => signs node.toList := by
  intro start done before spelled
  rw [expression_eq]
  refine .andThen (unary_spells spells spelled) fun found before spelled => ?_
  cases found with
  | none => exact .pure spelled
  | some first =>
    refine .andThen (.repeatStep (fun left _ => expressionStep_spells spells least left) (by simpa using spelled))
      fun node after spelled => .pure ?_
    simpa using spelled

theorem classDeclaration_spells (spells : inner.Spells) :
    (classDeclaration rounds inner).Spells Node.signs := by
  intro start done before spelled
  refine .andThen spelled.advance fun keyword before spelled => ?_
  refine .andThen spelled.advance fun name before spelled => ?_
  refine .andThen (skipType_spells _ spelled) fun _ before spelled => ?_
  refine .andThen (optionalBlock_spells spells spelled) fun body after spelled => .pure ?_
  simpa using spelled

theorem functionDeclaration_spells (spells : inner.Spells) :
    (functionDeclaration rounds inner).Spells signs := by
  intro start done before spelled
  unfold functionDeclaration
  extract_lets behindParameters
  refine .andThen spelled.advance fun _ before spelled => ?_
  refine .andThen (spelled.takeSign "&") fun _ before spelled => ?_
  refine .andThen spelled.advance fun _ before spelled => ?_
  have atParameters (parameters : List Node) (before : List Token)
      (spelled : Spelled start (done ++ signs parameters) before) :
      (behindParameters parameters).Yields before fun nodes after =>
        Spelled start (done ++ signs nodes) after := by
    refine .andThen (spelled.takeSign ":") fun _ before spelled => ?_
    extract_lets behindType
    have atType (before : List Token) (spelled : Spelled start (done ++ signs parameters) before) :
        (behindType ()).Yields before fun nodes after => Spelled start (done ++ signs nodes) after := by
      refine .andThen (optionalBlock_spells spells spelled) fun body after spelled => .pure ?_
      simpa using spelled
    refine .ite (fun _ => ?_) fun _ => atType before spelled
    exact .andThen (skipType_spells _ spelled) fun _ before spelled => atType before spelled.drop
  refine .andThen (spelled.takeSign "(") fun _ before spelled => .ite (fun _ => ?_) fun _ => ?_
  · exact .andThen (list_spells spells ")" _ spelled) fun parameters before spelled =>
      atParameters parameters before spelled
  · exact .bind (.pure (atParameters [] before (by simpa using spelled)))

theorem passOver_spells : passOver.Spells signs := by
  intro start done before spelled
  exact .andThen spelled.advance fun _ after spelled => .pure (by simpa using spelled)

theorem expressionStatement_spells (spells : inner.Spells) :
    (expressionStatement rounds inner).Spells signs := by
  intro start done before spelled
  exact .andThen (expression_spells spells 0 spelled) fun node after spelled => .pure spelled

theorem namedStatement_spells (spells : inner.Spells) (token : Token) :
    (namedStatement rounds inner token).Spells signs := by
  intro start done before spelled
  have passed := passOver_spells spelled
  unfold namedStatement
  extract_lets word
  refine .bind (.peek (.bind (.peek ?_)))
  refine .ite (fun _ => ?_) fun _ => .ite (fun _ => ?_) fun _ => .ite (fun _ => ?_) fun _ =>
    .ite (fun _ => passed) fun _ => .ite (fun _ => passed) fun _ => .ite (fun _ => passed) fun _ =>
    .ite (fun _ => functionDeclaration_spells spells spelled) fun _ =>
    .ite (fun _ => passed) fun _ => .ite (fun _ => ?_) fun _ => .ite (fun _ => passed) fun _ =>
    expressionStatement_spells spells spelled
  · refine .andThen spelled.advance fun _ before spelled => .bind (.peek (.ite (fun _ => ?_) fun _ => ?_))
    · exact .andThen spelled.advance fun _ _ spelled => optionalBlock_spells spells spelled
    · exact optionalBlock_spells spells spelled
  · refine .andThen (skipImports_spells spelled) fun _ after spelled => .pure ?_
    simpa using spelled
  · refine .andThen (classDeclaration_spells spells spelled) fun node after spelled => .pure ?_
    simpa using spelled
  · exact .andThen spelled.advance fun _ _ spelled => passOver_spells spelled

theorem statement_spells (spells : inner.Spells) : (statement rounds inner).Spells signs := by
  intro start done before spelled
  cases before with
  | nil => exact .bind (.peek (.pure (by simpa using spelled)))
  | cons token rest =>
    refine .bind (.peek (.ite (fun _ => passOver_spells spelled) fun _ =>
      .ite (fun _ => optionalBlock_spells spells spelled) fun _ => .ite (fun _ => ?_) fun _ =>
      .ite (fun _ => ?_) fun _ => .ite (fun _ => namedStatement_spells spells token spelled) fun _ =>
      expressionStatement_spells spells spelled))
    · exact .bind (.skip (.pure (by simpa using spelled.tail)))
    · exact .andThen (skipAttribute_spells spelled) fun _ after spelled => .pure (by simpa using spelled)

theorem statementStep_spells (spells : inner.Spells) (close : Option String) (nodes : List Node)
    {start before : List Token} {done : List Sign} (spelled : Spelled start (done ++ signs nodes.reverse) before) :
    (statementStep rounds inner close nodes).Yields before fun result after =>
      Spelled start (done ++ signs result.1.reverse) after := by
  refine .bind (.peek (.ite (fun _ => .pure spelled) fun _ => .ite (fun _ => ?_) fun _ => ?_))
  · exact .bind (.advance (.pure spelled.tail))
  refine .bind (.position fun earlier => ?_)
  refine .andThen (statement_spells spells spelled) fun found before spelled => ?_
  refine .bind (.position fun now => .ite (fun _ => ?_) fun _ => ?_)
  · exact .bind (.skip (.pure (by simpa using spelled.tail)))
  · exact .pure (by simpa using spelled)

theorem statements_spells (spells : inner.Spells) (close : Option String) :
    (statements rounds inner close).Spells signs := by
  intro start done before spelled
  rw [statements_eq]
  exact .map (.repeatStep (fun nodes _ => statementStep_spells spells close nodes) (by simpa using spelled))

end Parse

/-- Parsers of every depth spell the signs of their trees. -/
theorem Inner.ofDepth_spells (rounds depth : Nat) : (Inner.ofDepth rounds depth).Spells := by
  induction depth with
  | zero =>
    exact ⟨fun _ {_ _ _} _ => .tooDeep, fun _ {_ _ _} _ => .tooDeep, fun {_ _ _} _ => .tooDeep,
      fun {_ _ _} _ => .tooDeep⟩
  | succ depth ih =>
    exact ⟨Parse.statements_spells ih, Parse.expression_spells ih, Parse.unary_spells ih,
      Parse.primary_spells ih⟩

end FormHarvest
