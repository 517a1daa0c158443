import FormHarvest.Proofs.Advancing
import FormHarvest.Proofs.ParserParts

namespace FormHarvest

/-- The parsers for what stands inside brackets advance. They fail only with at least as many tokens
ahead as they read levels of nesting. `size` is any bound above these tokens: since a parser calls them
behind a token that it has taken, each level more has a token more. -/
structure Inner.Advances (inner : Inner) (depth : Nat) : Prop where
  statements (close : Option String) {before : List Token} {size : Nat} (short : before.length < size) :
    (inner.statements close).Advances (depth < size) before
  expression (least : Nat) {before : List Token} {size : Nat} (short : before.length < size) :
    (inner.expression least).Finds (depth < size) before
  unary {before : List Token} {size : Nat} (short : before.length < size) :
    inner.unary.Finds (depth < size) before
  primary {before : List Token} {size : Nat} (short : before.length < size) :
    inner.primary.Finds (depth < size) before

namespace Parse

variable {fails : Prop} {before rest : List Token} {token : Token}

/-! ### What is passed over -/

theorem typeStep_turns (stops : List String) (depth : Nat) : (typeStep stops depth).Turns fails before := by
  refine .bind (.peek (.ite (fun _ => .pure nofun) fun some_ => .ite (fun _ => .pure nofun) fun _ => ?_))
  cases before with
  | nil => exact absurd rfl some_
  | cons token rest =>
    have taken (depth : Nat) : (advance >>= fun _ => pure (depth, true)).Turns fails (token :: rest) :=
      .ofTakes (.takes fun _ => .pure trivial)
    exact .ite (fun _ => taken _) fun _ => .ite (fun _ => .ite (fun _ => .pure nofun) fun _ => taken _) fun _ => taken _

theorem skipType_advances (rounds : Nat) (stops : List String) : (skipType rounds stops).Advances fails before := by
  rw [skipType_eq]
  exact .map (.repeatStep fun _ _ _ => typeStep_turns stops _)

theorem attributeStep_turns (depth : Nat) : (attributeStep depth).Turns fails before := by
  refine .ite (fun _ => .pure nofun) fun _ => .bind (.peek (.ite (fun _ => .pure nofun) fun some_ => ?_))
  cases before with
  | nil => exact absurd rfl some_
  | cons token rest =>
    refine .ofTakes (.takes fun _ => ?_)
    exact .ite (fun _ => .pure trivial) fun _ => .ite (fun _ => .pure trivial) fun _ => .pure trivial

theorem skipAttribute_takes (rounds : Nat) : (skipAttribute rounds).Takes fails before := by
  rw [skipAttribute_eq]
  exact .takes fun _ => .map (.repeatStep fun _ _ _ => attributeStep_turns _)

theorem importsStep_turns (depth : Int) : (importsStep depth).Turns fails before := by
  refine .bind (.peek (.ite (fun _ => .pure nofun) fun some_ => ?_))
  cases before with
  | nil => exact absurd rfl some_
  | cons token rest =>
    refine .ofTakes (.takes fun _ => .ite (fun _ => .pure trivial) fun _ => .ite (fun _ => .ite (fun _ => ?_)
      fun _ => .pure trivial) fun _ => .ite (fun _ => .pure trivial) fun _ => .pure trivial)
    exact .bind (.takeSign (fun _ _ => .pure trivial) (.pure trivial))

theorem skipImports_takes (rounds : Nat) : (skipImports rounds).Takes fails before := by
  rw [skipImports_eq]
  exact .takes fun _ => .map (.repeatStep fun _ _ _ => importsStep_turns _)

theorem computedClassStep_turns (name : String) : (computedClassStep name).Turns fails before := by
  refine .bind (.peek (.bind (.peek (.ite (fun access => ?_) fun _ => .pure nofun))))
  cases before with
  | nil => simp [isSign] at access
  | cons token rest => exact .ofTakes (.takes fun _ => .bind (.advance (.pure trivial)))

theorem computedClass_advances (rounds : Nat) (name : String) :
    (computedClass rounds name).Advances fails before :=
  .repeatStep fun _ _ _ => computedClassStep_turns _

/-! ### What stands in brackets -/

variable {rounds depth size : Nat} {inner : Inner}

theorem listStep_turns (advances : inner.Advances depth) (close : String) (separators : List String)
    (nodes : List Node) (short : before.length < size) :
    (listStep inner close separators nodes).Turns (depth < size) before := by
  cases before with
  | nil => exact .bind (.peek (.pure nofun))
  | cons token rest =>
    refine .bind (.peek (.ite (fun _ => .bind (.advance (.pure nofun))) fun _ => .ite (fun _ => ?_) fun _ =>
      .bind (.peek (.ite (fun _ => ?_) fun _ => ?_))))
    · exact .ofTakes (.takes fun _ => .pure trivial)
    · exact .ofTakes (.takes fun _ => .bind (.advance (.pure trivial)))
    · refine .andThen (advances.expression 0 short) fun found after shorter taken => ?_
      cases found with
      | some node => exact .pure fun _ => taken rfl
      | none => exact .skipped shorter (Nat.succ_pos _) (.pure trivial)

theorem list_advances (advances : inner.Advances depth) (close : String) (separators : List String)
    (short : before.length < size) : (list rounds inner close separators).Advances (depth < size) before := by
  rw [list_eq]
  exact .map (.repeatStep fun nodes _ shorter =>
    listStep_turns advances close separators nodes (Nat.lt_of_le_of_lt shorter short))

theorem arguments_takes (advances : inner.Advances depth) (short : before.tail.length < size) :
    (arguments rounds inner).Takes (depth < size) before :=
  .takes fun _ => list_advances advances ")" [","] short

theorem optionalArguments_advances (advances : inner.Advances depth) (short : before.length ≤ size) :
    (optionalArguments rounds inner).Advances (depth < size) before := by
  refine .bind (.peek (.ite (fun paren => ?_) fun _ => .pure trivial))
  cases before with
  | nil => cases paren
  | cons token rest => exact (arguments_takes advances short).advances

theorem optionalBlock_advances (advances : inner.Advances depth) (short : before.length ≤ size) :
    (optionalBlock inner).Advances (depth < size) before :=
  .bind (.takeSign (fun _ shorter => advances.statements _ (Nat.lt_of_lt_of_le shorter short)) (.pure trivial))

/-- A list in brackets, or something without one. -/
theorem bracketed_advances {α : Type} {text close : String} {separators : List String} {next : List Node → Parse α}
    {other : Parse α} (advances : inner.Advances depth) (short : before.length ≤ size)
    (inside : ∀ nodes after, after.length ≤ before.length → (next nodes).Advances (depth < size) after)
    (alone : other.Advances (depth < size) before) :
    (takeSign text >>= fun taken => if taken then list rounds inner close separators >>= next else other).Advances
      (depth < size) before := by
  refine .bind (.takeSign (fun _ shorter => ?_) alone)
  refine .andThen (list_advances advances _ _ (Nat.lt_of_lt_of_le shorter short)) fun nodes after further _ => ?_
  exact inside nodes after (Nat.le_trans further (Nat.le_of_lt shorter))

theorem arrayItem_moves (advances : inner.Advances depth) (items : List (ArrayItem Node)) (unpack byRef : Bool)
    {limit : Nat} (within : before.length ≤ limit) (positive : 0 < limit) (short : before.length < size) :
    (arrayItem inner items unpack byRef).Moves (depth < size) before fun result after =>
      result.2 = true → after.length < limit := by
  refine .andThen (advances.expression 0 short) fun found after shorter taken => ?_
  cases found with
  | none => exact .skipped (Nat.le_trans shorter within) positive (.pure trivial)
  | some first =>
    refine .within ?_ (Nat.lt_of_lt_of_le (taken rfl) within)
    have shortAfter := Nat.lt_of_le_of_lt shorter short
    refine .bind (.takeSign (fun _ further => ?_) (.pure trivial))
    refine .andThen (takeSign_advances _) fun byRef behind further' _ => ?_
    exact .made (advances.expression 0 (by omega))

theorem arrayStep_turns (advances : inner.Advances depth) (close : String) (items : List (ArrayItem Node))
    (short : before.length < size) : (arrayStep inner close items).Turns (depth < size) before := by
  cases before with
  | nil => exact .bind (.peek (.pure nofun))
  | cons token rest =>
    refine .bind (.peek (.ite (fun _ => .bind (.advance (.pure nofun))) fun _ => .ite (fun _ => ?_) fun _ => ?_))
    · exact .ofTakes (.takes fun _ => .pure trivial)
    have item (unpack byRef : Bool) (after : List Token) (shorter : after.length ≤ (token :: rest).length) :=
      arrayItem_moves advances items unpack byRef shorter (Nat.succ_pos _) (Nat.lt_of_le_of_lt shorter short)
    refine .andThen (takeSign_advances _) fun unpack after shorter _ => .ite (fun _ => ?_) fun _ => ?_
    · exact item _ _ after shorter
    · exact .andThen (takeSign_advances _) fun byRef behind further _ =>
        item _ _ behind (Nat.le_trans further shorter)

theorem array_advances (advances : inner.Advances depth) (close : String) (mark : Mark)
    (short : before.length < size) : (array rounds inner close mark).Advances (depth < size) before := by
  rw [array_eq]
  exact .map (.repeatStep fun items _ shorter =>
    arrayStep_turns advances close items (Nat.lt_of_le_of_lt shorter short))

theorem closureEnd_advances (advances : inner.Advances depth) (arrow : Bool) (parameters : List Node) (mark : Mark)
    (short : before.length < size) :
    (closureEnd rounds inner arrow parameters mark).Advances (depth < size) before := by
  unfold closureEnd
  refine .andThen (takeSign_advances _) fun typed before' shorter _ => ?_
  have short := Nat.lt_of_le_of_lt shorter short
  extract_lets behindBody behindType
  have atBody (after : List Token) (short : after.length < size) : (behindType ()).Advances (depth < size) after := by
    refine .ite (fun _ => .andThen (takeSign_advances _) fun _ after' shorter _ => ?_) fun _ => ?_
    · refine .ite (fun _ => ?_) fun _ => .bind (.pure (.pure trivial))
      exact .andThen (advances.expression _ (Nat.lt_of_le_of_lt shorter short)) fun _ _ _ _ =>
        .bind (.pure (.pure trivial))
    · exact .made (optionalBlock_advances advances (Nat.le_of_lt short))
  refine .ite (fun _ => ?_) fun _ => atBody before' short
  exact .andThen (skipType_advances _ _) fun _ after shorter _ => atBody after (Nat.lt_of_le_of_lt shorter short)

theorem closure_takes (advances : inner.Advances depth) (doc : Option String) (short : before.tail.length < size) :
    (closure rounds inner doc).Takes (depth < size) before := by
  unfold closure
  refine .takes fun keyword => ?_
  extract_lets line arrow behindParameters
  refine .andThen (takeSign_advances _) fun _ after shorter _ => ?_
  have short := Nat.lt_of_le_of_lt shorter short
  have atParameters (parameters : List Node) (before : List Token) (short : before.length < size) :
      (behindParameters parameters).Advances (depth < size) before := by
    have ends (after : List Token) (short : after.length < size) :
        (closureEnd rounds inner arrow parameters { line, doc }).Advances (depth < size) after :=
      closureEnd_advances advances arrow parameters { line, doc } short
    refine .bind (.peek (.bind (.peek (.ite (fun _ => ?_) fun _ => ends before short))))
    refine .andThen advance_advances fun _ after shorter _ => .andThen advance_advances fun _ behind further _ => ?_
    exact .andThen (list_advances advances _ _ (by omega)) fun _ last furthest _ => ends last (by omega)
  exact bracketed_advances advances (Nat.le_of_lt short)
    (fun nodes behind further => atParameters nodes behind (Nat.lt_of_le_of_lt further short))
    (.bind (.pure (atParameters [] after short)))

/-! ### Operands -/

theorem creation_takes (advances : inner.Advances depth) (doc : Option String) (short : before.tail.length < size) :
    (creation rounds inner doc).Takes (depth < size) before := by
  unfold creation
  refine .takes fun keyword => ?_
  extract_lets line behindClass
  have atClass (className : String) (after : List Token) (shorter : after.length ≤ before.tail.length) :
      (behindClass className).Advances (depth < size) after :=
    .made (optionalArguments_advances advances (by omega))
  refine .bind (.peek (.ite (fun _ => ?_) fun _ => ?_))
  · refine .andThen advance_advances fun _ after shorter _ => ?_
    refine .andThen (optionalArguments_advances advances (by omega)) fun args after further _ => ?_
    refine .andThen (skipType_advances _ _) fun _ behind furthest _ => ?_
    exact .made (optionalBlock_advances advances (by omega))
  · refine .andThen (takeSign_advances _) fun _ after shorter _ => .ite (fun _ => ?_) fun _ =>
      .ite (fun _ => ?_) fun _ => .ite (fun _ => ?_) fun _ => .bind (.pure (atClass _ after shorter))
    · exact .andThen advance_advances fun _ behind further _ => .bind (.pure (atClass _ behind (by omega)))
    · refine .andThen advance_advances fun _ behind further _ => ?_
      exact .andThen (computedClass_advances _ _) fun name last furthest _ => atClass name last (by omega)
    · refine .andThen (list_advances advances _ _ (by omega)) fun _ behind further _ => ?_
      exact .bind (.pure (atClass _ behind (by omega)))

/-- A call, or something without arguments. -/
theorem call_advances {α : Type} {next : List Node → Parse α} {other : Parse α} (advances : inner.Advances depth)
    (short : before.length ≤ size) (called : ∀ args after, (next args).Advances (depth < size) after)
    (alone : other.Advances (depth < size) before) :
    (peek >>= fun token => if isSign token "(" then arguments rounds inner >>= next else other).Advances
      (depth < size) before := by
  refine .bind (.peek (.ite (fun paren => ?_) fun _ => alone))
  cases before with
  | nil => cases paren
  | cons token rest => exact .andThen (arguments_takes advances short) fun args after _ _ => called args after

theorem staticAccess_takes (advances : inner.Advances depth) (className : String) (mark : Mark)
    (short : before.tail.length < size) :
    (staticAccess rounds inner className mark).Takes (depth < size) before := by
  refine .takes fun _ => .bind (.peek ?_)
  split
  · exact .pure trivial
  split
  · exact .andThen advance_advances fun _ after shorter _ =>
      call_advances advances (by omega) (fun _ _ => .pure trivial) (.pure trivial)
  · exact .made advance_advances
  · exact bracketed_advances advances (Nat.le_of_lt short) (fun _ _ _ => .pure trivial) (.pure trivial)

theorem member_takes (advances : inner.Advances depth) (node : Node) (short : before.tail.length < size) :
    (member rounds inner node).Takes (depth < size) before := by
  refine .takes fun _ => .bind (.peek ?_)
  split
  · rename_i member _
    extract_lets behindName
    have atName (name? : Option String) (after : List Token) (shorter : after.length ≤ before.tail.length) :
        (behindName name?).Advances (depth < size) after := by
      cases name? with
      | none => exact .pure trivial
      | some name => exact call_advances advances (by omega) (fun _ _ => .pure trivial) (.pure trivial)
    split
    · exact .andThen advance_advances fun _ after shorter _ =>
        .bind (.pure (atName (some member.text) after shorter))
    · exact .andThen advance_advances fun _ after shorter _ =>
        .bind (.pure (atName (some ("$" ++ member.text)) after shorter))
    · exact bracketed_advances advances (Nat.le_of_lt short)
        (fun _ after shorter => .bind (.pure (atName (some computedMember) after shorter)))
        (.bind (.pure (atName none _ (Nat.le_refl _))))
  · exact .pure trivial

theorem staticMember_takes (advances : inner.Advances depth) (node : Node) (short : before.tail.length < size) :
    (staticMember rounds inner node).Takes (depth < size) before := by
  refine .takes fun _ => .bind (.peek ?_)
  split
  · split
    · exact .andThen advance_advances fun _ after shorter _ =>
        call_advances advances (by omega) (fun _ _ => .pure trivial) (.pure trivial)
    · exact .made advance_advances
    · exact .pure trivial
  · exact .pure trivial

theorem postfixStep_turns (advances : inner.Advances depth) (node : Node) (short : before.length ≤ size) :
    (postfixStep rounds inner node).Turns (depth < size) before := by
  cases before with
  | nil => exact .bind (.peek (.pure nofun))
  | cons token rest =>
    refine .bind (.peek (.ite (fun _ => ?_) fun _ => .ite (fun _ => ?_) fun _ => .ite (fun _ => ?_) fun _ =>
      .ite (fun _ => ?_) fun _ => .ite (fun _ => ?_) fun _ => .pure nofun))
    · exact .ofTakes (member_takes advances node short)
    · exact .ofTakes (staticMember_takes advances node short)
    · exact .ofTakes (.takes fun _ => .made (list_advances advances _ _ short))
    · refine .andThen (arguments_takes advances short) fun args after _ taken => ?_
      exact .within (.pure trivial) (Nat.lt_succ_of_le taken)
    · exact .ofTakes (.takes fun _ => .pure trivial)

theorem postfixes_advances (advances : inner.Advances depth) (node : Node) (short : before.length ≤ size) :
    (postfixes rounds inner node).Advances (depth < size) before := by
  rw [postfixes_eq]
  exact .repeatStep fun node _ shorter => postfixStep_turns advances node (Nat.le_trans shorter short)

theorem named_takes (advances : inner.Advances depth) (token : Token) (next : Option Token) (mark : Mark)
    (short : before.tail.length < size) : (named rounds inner token next mark).Takes (depth < size) before := by
  have shortTail : before.tail.tail.length < size := by rw [List.length_tail]; omega
  refine .takes fun _ => .ite (fun _ => ?_) fun _ => .ite (fun _ => ?_) fun _ => .pure trivial
  · exact .made (arguments_takes advances shortTail)
  · exact (staticAccess_takes advances _ mark shortTail).advances

theorem namedOperand_finds (advances : inner.Advances depth) (next : Option Token) (doc : Option String) (mark : Mark)
    (short : (token :: rest).length ≤ size) :
    (namedOperand rounds inner token next doc mark).Finds (depth < size) (token :: rest) := by
  have shortTail : (token :: rest).tail.tail.length < size := by
    simp only [List.length_cons, List.tail_cons, List.length_tail] at short ⊢
    omega
  have whole {f : Node → Node} {parse : Parse Node} (takes : parse.Takes (depth < size) (token :: rest)) :
      (parse >>= fun node => pure (some (f node))).Finds (depth < size) (token :: rest) :=
    .andThen takes fun _ _ _ taken => .pure fun _ => Nat.lt_succ_of_le taken
  unfold namedOperand
  extract_lets word
  refine .ite (fun _ => ?_) fun _ => .ite (fun _ => whole (closure_takes advances doc short)) fun _ =>
    .ite (fun _ => whole (creation_takes advances doc short)) fun _ => .ite (fun _ => ?_) fun _ =>
    whole (named_takes advances token next mark short)
  · refine .ofTakes (.takes fun _ => .bind (.advance ?_))
    exact .made (array_advances advances _ mark shortTail)
  · refine .ofTakes (.takes fun _ => .bind (.advance ?_))
    refine .andThen (list_advances advances _ _ shortTail) fun subject after shorter _ => ?_
    exact bracketed_advances advances (by omega) (fun _ _ _ => .pure trivial) (.bind (.pure (.pure trivial)))

theorem signOperand_finds (advances : inner.Advances depth) (kind : TokenKind) (doc : Option String) (mark : Mark)
    (short : (token :: rest).length ≤ size) :
    (signOperand rounds inner token kind doc mark).Finds (depth < size) (token :: rest) := by
  refine .ite (fun _ => ?_) fun _ => .ite (fun _ => ?_) fun _ => .ite (fun _ => ?_) fun _ =>
    .ite (fun _ => ?_) fun _ => .bind (.setDoc (.pure nofun))
  · refine .ofTakes (.takes fun _ => ?_)
    exact .made (array_advances advances _ mark short)
  · refine .ofTakes (.takes fun _ => .andThen (list_advances advances _ _ short) fun _ _ _ _ => ?_)
    split
    · exact .pure trivial
    · exact .pure trivial
  · refine .andThen (skipAttribute_takes rounds) fun _ after _ taken => .bind (.setDoc ?_)
    exact .within (advances.unary (Nat.lt_of_le_of_lt taken short)).advances (Nat.lt_succ_of_le taken)
  · refine .ofTakes (.takes fun _ => ?_)
    exact .made (advances.primary short)

theorem primary_finds (advances : inner.Advances depth) (short : before.length ≤ size) :
    (primary rounds inner).Finds (depth < size) before := by
  cases before with
  | nil => exact .bind (.peek (.pure nofun))
  | cons token rest =>
    refine .bind (.peek (.bind (.takeDoc fun doc => ?_)))
    extract_lets mark word
    split
    · exact .ofTakes (.takes fun _ => .pure trivial)
    · exact .ofTakes (.takes fun _ => .pure trivial)
    · exact .ofTakes (.takes fun _ => .pure trivial)
    · exact .bind (.peek (namedOperand_finds advances _ doc mark short))
    · exact signOperand_finds advances token.kind doc mark short

theorem operand_finds (advances : inner.Advances depth) (short : before.length ≤ size) :
    (operand rounds inner).Finds (depth < size) before := by
  refine .andThen (primary_finds advances short) fun found after shorter taken => ?_
  cases found with
  | none => exact .pure nofun
  | some node =>
    refine .within ?_ (taken rfl)
    exact .made (postfixes_advances advances node (Nat.le_trans shorter short))

theorem wordOperand_finds (advances : inner.Advances depth) (short : (token :: rest).length ≤ size) :
    (wordOperand rounds inner token).Finds (depth < size) (token :: rest) := by
  refine .bind (.peek (.ite (fun _ => ?_) fun _ => .bind (.peek (.ite (fun _ => ?_) fun _ =>
    operand_finds advances short))))
  · refine .ofTakes (.takes fun _ => ?_)
    extract_lets word behindWord
    have atOperand (after : List Token) (shorter : after.length ≤ rest.length) :
        (behindWord ()).Advances (depth < size) after :=
      .made (advances.expression _ (Nat.lt_of_le_of_lt shorter short))
    refine .bind (.peek (.ite (fun _ => ?_) fun _ => atOperand rest (Nat.le_refl _)))
    exact .andThen advance_advances fun _ after shorter _ => atOperand after shorter
  · exact .ofTakes (.takes fun _ => (operand_finds advances (Nat.le_of_lt short)).advances)

theorem unary_finds (advances : inner.Advances depth) (short : before.length ≤ size) :
    (unary rounds inner).Finds (depth < size) before := by
  cases before with
  | nil => exact .bind (.peek (.pure nofun))
  | cons token rest =>
    have prefixed {f : Option Node → Node} (after : List Token) (shorter : after.length ≤ rest.length) :
        (inner.unary >>= fun operand => pure (some (f operand))).Advances (depth < size) after :=
      .made (advances.unary (Nat.lt_of_le_of_lt shorter short))
    refine .bind (.peek (.ite (fun _ => .ofTakes (.takes fun _ => prefixed rest (Nat.le_refl _))) fun _ =>
      .ite (fun _ => .ofTakes (.takes fun _ => prefixed rest (Nat.le_refl _))) fun _ => .ite (fun _ => ?_) fun _ =>
      .bind (.peek (.bind (.peek (.ite (fun _ => ?_) fun _ => wordOperand_finds advances short))))))
    · exact .ofTakes (.takes fun _ => (advances.unary short).advances)
    · refine .ofTakes (.takes fun _ => .andThen advance_advances fun type after shorter _ => ?_)
      exact .andThen advance_advances fun _ behind further _ => prefixed behind (Nat.le_trans further shorter)

/-! ### Expressions -/

theorem choice_takes (advances : inner.Advances depth) (left : Node) (short : before.tail.length < size) :
    (choice inner left).Takes (depth < size) before := by
  refine .takes fun _ => .andThen (takeSign_advances _) fun _ after shorter _ => .ite (fun _ => ?_) fun _ => ?_
  · exact .made (advances.expression _ (by omega))
  refine .andThen (advances.expression 0 (by omega)) fun middle after further _ => ?_
  refine .andThen (takeSign_advances _) fun _ behind furthest _ => .ite (fun _ => ?_) fun _ => ?_
  · exact .made (advances.expression _ (by omega))
  · exact .bind (.pure (.pure trivial))

theorem expressionStep_turns (advances : inner.Advances depth) (least : Nat) (left : Node)
    (short : before.length ≤ size) : (expressionStep inner least left).Turns (depth < size) before := by
  cases before with
  | nil => exact .bind (.peek (.pure nofun))
  | cons token rest =>
    have operand {f : Option Node → Node} (least : Nat) (after : List Token)
        (shorter : after.length ≤ rest.length) :
        (inner.expression least >>= fun right => pure (f right, true)).Advances (depth < size) after :=
      .made (advances.expression least (Nat.lt_of_le_of_lt shorter short))
    refine .bind (.peek (.ite (fun _ => .ite (fun _ => .pure nofun) fun _ => ?_) fun _ => .ite (fun _ =>
      .ite (fun _ => .pure nofun) fun _ => ?_) fun _ => ?_))
    · refine .ofTakes (.takes fun _ => ?_)
      exact .andThen (takeSign_advances _) fun _ after shorter _ => operand _ after shorter
    · refine .andThen (choice_takes advances left short) fun node after _ taken => ?_
      exact .pure fun _ => Nat.lt_succ_of_le taken
    · split
      · exact .pure nofun
      · exact .ite (fun _ => .pure nofun) fun _ => .ofTakes (.takes fun _ => operand _ rest (Nat.le_refl _))

theorem expression_finds (advances : inner.Advances depth) (least : Nat) (short : before.length ≤ size) :
    (expression rounds inner least).Finds (depth < size) before := by
  rw [expression_eq]
  refine .andThen (unary_finds advances short) fun found after shorter taken => ?_
  cases found with
  | none => exact .pure nofun
  | some first =>
    refine .within (.made (.repeatStep fun left behind further => ?_)) (taken rfl)
    exact expressionStep_turns advances least left (by omega)

/-! ### Statements -/

theorem passOver_takes : passOver.Takes fails before := .takes fun _ => .pure trivial

theorem classDeclaration_takes (advances : inner.Advances depth) (short : before.tail.length < size) :
    (classDeclaration rounds inner).Takes (depth < size) before := by
  refine .takes fun _ => .andThen advance_advances fun _ after shorter _ => ?_
  refine .andThen (skipType_advances _ _) fun _ behind further _ => ?_
  exact .made (optionalBlock_advances advances (by omega))

theorem functionDeclaration_takes (advances : inner.Advances depth) (short : before.tail.length < size) :
    (functionDeclaration rounds inner).Takes (depth < size) before := by
  unfold functionDeclaration
  refine .takes fun _ => ?_
  extract_lets behindParameters
  refine .andThen (takeSign_advances _) fun _ named further _ => ?_
  refine .andThen advance_advances fun _ after shorter _ => ?_
  have atParameters (parameters : List Node) (before : List Token) (short : before.length ≤ size) :
      (behindParameters parameters).Advances (depth < size) before := by
    refine .andThen (takeSign_advances _) fun _ after shorter _ => ?_
    extract_lets behindType
    have atType (behind : List Token) (further : behind.length ≤ after.length) :
        (behindType ()).Advances (depth < size) behind :=
      .made (optionalBlock_advances advances (by omega))
    refine .ite (fun _ => ?_) fun _ => atType after (Nat.le_refl _)
    exact .andThen (skipType_advances _ _) fun _ behind further _ => atType behind further
  exact bracketed_advances advances (by omega) (fun nodes behind further => atParameters nodes behind (by omega))
    (.bind (.pure (atParameters [] after (by omega))))

theorem expressionStatement_advances (advances : inner.Advances depth) (short : before.length ≤ size) :
    (expressionStatement rounds inner).Advances (depth < size) before :=
  .made (expression_finds advances 0 short)

theorem namedStatement_advances (advances : inner.Advances depth) (token : Token) (short : before.length ≤ size)
    (shortTail : before.tail.length < size) :
    (namedStatement rounds inner token).Advances (depth < size) before := by
  have passed : passOver.Advances (depth < size) before := passOver_takes.advances
  unfold namedStatement
  extract_lets word
  refine .bind (.peek (.bind (.peek ?_)))
  refine .ite (fun _ => ?_) fun _ => .ite (fun _ => ?_) fun _ => .ite (fun _ => ?_) fun _ =>
    .ite (fun _ => passed) fun _ => .ite (fun _ => passed) fun _ => .ite (fun _ => passed) fun _ =>
    .ite (fun _ => (functionDeclaration_takes advances shortTail).advances) fun _ =>
    .ite (fun _ => passed) fun _ => .ite (fun _ => ?_) fun _ => .ite (fun _ => passed) fun _ =>
    expressionStatement_advances advances short
  · refine .andThen advance_advances fun _ after shorter _ => .bind (.peek (.ite (fun _ => ?_) fun _ => ?_))
    · exact .andThen advance_advances fun _ behind further _ => optionalBlock_advances advances (by omega)
    · exact optionalBlock_advances advances (by omega)
  · exact .made (skipImports_takes _)
  · exact .made (classDeclaration_takes advances shortTail)
  · exact .andThen advance_advances fun _ _ _ _ => passOver_takes.advances

theorem statement_advances (advances : inner.Advances depth) (short : before.length ≤ size) :
    (statement rounds inner).Advances (depth < size) before := by
  cases before with
  | nil => exact .bind (.peek (.pure trivial))
  | cons token rest =>
    refine .bind (.peek (.ite (fun _ => passOver_takes.advances) fun _ =>
      .ite (fun _ => optionalBlock_advances advances short) fun _ => .ite (fun _ => ?_) fun _ =>
      .ite (fun _ => ?_) fun _ => .ite (fun _ => namedStatement_advances advances token short short) fun _ =>
      expressionStatement_advances advances short))
    · exact .bind (.skip (.pure trivial))
    · exact .made (skipAttribute_takes _)

/-- What no statement takes is skipped. -/
theorem statementStep_turns (advances : inner.Advances depth) (close : Option String) (nodes : List Node)
    (short : before.length ≤ size) : (statementStep rounds inner close nodes).Turns (depth < size) before := by
  cases before with
  | nil => exact .bind (.peek (.pure nofun))
  | cons token rest =>
    cases closes : close.any (isSign (some token)) with
    | true =>
      exact .bind (.peek (.ite (fun no => nomatch no) fun _ => .ite (fun _ => .bind (.advance (.pure nofun)))
        fun no => absurd closes no))
    | false =>
      -- the look ahead has passed the doc comments, so only a token that is read can move the position
      refine .peek_settled fun cursor ahead settled => ?_
      simp only [Nat.sub_self, List.getElem?_cons_zero, Option.isNone_some, Bool.false_eq_true, if_false, closes]
      refine Moves.moved (statement_advances advances short) ?_ ?_ ahead settled
      · exact fun found => .skipped (Nat.le_refl _) (Nat.succ_pos _) (.pure trivial)
      · exact fun found after shorter => .pure fun _ => Nat.lt_succ_of_le shorter

theorem statements_advances (advances : inner.Advances depth) (close : Option String) (short : before.length ≤ size) :
    (statements rounds inner close).Advances (depth < size) before := by
  rw [statements_eq]
  exact .map (.repeatStep fun nodes _ shorter => statementStep_turns advances close nodes (Nat.le_trans shorter short))

end Parse

/-- Parsers of every depth advance. -/
theorem Inner.ofDepth_advances (rounds depth : Nat) : (Inner.ofDepth rounds depth).Advances depth := by
  induction depth with
  | zero =>
    exact ⟨fun _ _ _ short => .tooDeep (Nat.zero_lt_of_lt short),
      fun _ _ _ short => .tooDeep (Nat.zero_lt_of_lt short), fun short => .tooDeep (Nat.zero_lt_of_lt short),
      fun short => .tooDeep (Nat.zero_lt_of_lt short)⟩
  | succ depth ih =>
    have deeper (size : Nat) : (depth < size - 1) = (depth + 1 < size) := propext (by omega)
    exact ⟨fun close _ size short => deeper size ▸ Parse.statements_advances ih close (Nat.le_sub_one_of_lt short),
      fun least _ size short => deeper size ▸ Parse.expression_finds ih least (Nat.le_sub_one_of_lt short),
      fun {_ size} short => deeper size ▸ Parse.unary_finds ih (Nat.le_sub_one_of_lt short),
      fun {_ size} short => deeper size ▸ Parse.primary_finds ih (Nat.le_sub_one_of_lt short)⟩

end FormHarvest
