import FormHarvest.Proofs.AdvancingParsers
import FormHarvest.Proofs.SourceCuts

namespace FormHarvest

open Parse

/-- The parse functions over the parsers for what stands inside brackets. -/
inductive ParseFunction (rounds : Nat) (inner : Inner) : {α : Type} → Parse α → Prop
  | skip : ParseFunction rounds inner skip
  | skipAttribute : ParseFunction rounds inner (skipAttribute rounds)
  | skipImports : ParseFunction rounds inner (skipImports rounds)
  | skipType (stops : List String) : ParseFunction rounds inner (skipType rounds stops)
  | list (close : String) (separators : List String) :
    ParseFunction rounds inner (list rounds inner close separators)
  | arguments : ParseFunction rounds inner (arguments rounds inner)
  | optionalArguments : ParseFunction rounds inner (optionalArguments rounds inner)
  | optionalBlock : ParseFunction rounds inner (optionalBlock inner)
  | array (close : String) (mark : Mark) : ParseFunction rounds inner (array rounds inner close mark)
  | closure (doc : Option String) : ParseFunction rounds inner (closure rounds inner doc)
  | computedClass (name : String) : ParseFunction rounds inner (computedClass rounds name)
  | creation (doc : Option String) : ParseFunction rounds inner (creation rounds inner doc)
  | staticAccess (className : String) (mark : Mark) :
    ParseFunction rounds inner (staticAccess rounds inner className mark)
  | postfixes (node : Node) : ParseFunction rounds inner (postfixes rounds inner node)
  | named (token : Token) (next : Option Token) (mark : Mark) :
    ParseFunction rounds inner (named rounds inner token next mark)
  | primary : ParseFunction rounds inner (primary rounds inner)
  | operand : ParseFunction rounds inner (operand rounds inner)
  | unary : ParseFunction rounds inner (unary rounds inner)
  | choice (left : Node) : ParseFunction rounds inner (choice inner left)
  | expression (least : Nat) : ParseFunction rounds inner (expression rounds inner least)
  | classDeclaration : ParseFunction rounds inner (classDeclaration rounds inner)
  | functionDeclaration : ParseFunction rounds inner (functionDeclaration rounds inner)
  | passOver : ParseFunction rounds inner passOver
  | expressionStatement : ParseFunction rounds inner (expressionStatement rounds inner)
  | namedStatement (token : Token) : ParseFunction rounds inner (namedStatement rounds inner token)
  | statement : ParseFunction rounds inner (statement rounds inner)
  | statements (close : Option String) : ParseFunction rounds inner (statements rounds inner close)

theorem ParseFunction.advances {rounds depth : Nat} {inner : Inner} {α : Type} {parse : Parse α}
    (function : ParseFunction rounds inner parse) (advances : inner.Advances depth) (before : List Token) :
    parse.Advances (depth < before.length + 1) before := by
  have whole : before.length < before.length + 1 := Nat.lt_succ_self _
  have tail : before.tail.length < before.length + 1 := by rw [List.length_tail]; omega
  cases function with
  | skip => exact .skip trivial
  | skipAttribute => exact (skipAttribute_takes rounds).advances
  | skipImports => exact (skipImports_takes rounds).advances
  | skipType stops => exact skipType_advances rounds stops
  | list close separators => exact list_advances advances close separators whole
  | arguments => exact (arguments_takes advances tail).advances
  | optionalArguments => exact optionalArguments_advances advances (Nat.le_succ _)
  | optionalBlock => exact optionalBlock_advances advances (Nat.le_succ _)
  | array close mark => exact array_advances advances close mark whole
  | closure doc => exact (closure_takes advances doc tail).advances
  | computedClass name => exact computedClass_advances rounds name
  | creation doc => exact (creation_takes advances doc tail).advances
  | staticAccess className mark => exact (staticAccess_takes advances className mark tail).advances
  | postfixes node => exact postfixes_advances advances node (Nat.le_succ _)
  | named token next mark => exact (named_takes advances token next mark tail).advances
  | primary => exact (primary_finds advances (Nat.le_succ _)).advances
  | operand => exact (operand_finds advances (Nat.le_succ _)).advances
  | unary => exact (unary_finds advances (Nat.le_succ _)).advances
  | choice left => exact (choice_takes advances left tail).advances
  | expression least => exact (expression_finds advances least (Nat.le_succ _)).advances
  | classDeclaration => exact (classDeclaration_takes advances tail).advances
  | functionDeclaration => exact (functionDeclaration_takes advances tail).advances
  | passOver => exact passOver_takes.advances
  | expressionStatement => exact expressionStatement_advances advances (Nat.le_succ _)
  | namedStatement token => exact namedStatement_advances advances token (Nat.le_succ _) tail
  | statement => exact statement_advances advances (Nat.le_succ _)
  | statements close => exact statements_advances advances close (Nat.le_succ _)

/-- A parser that finds a tree has passed a token. -/
def Parse.PassesWithNode (parse : Parse (Option Node)) : Prop :=
  ∀ cursor node after, parse cursor = .ok (some node, after) → cursor.Passes after

/-- A round that does not end its loop passes a token. -/
def Parse.PassesOrEnds {σ : Type} (step : σ → Parse (σ × Bool)) : Prop :=
  ∀ value cursor next after, step value cursor = .ok ((next, true), after) → cursor.Passes after

/-- No parse function goes back, a tree is found behind a token, and the loops of the parse functions
repeat rounds that pass tokens. -/
structure Inner.Progresses (inner : Inner) (rounds : Nat) : Prop where
  functions {α : Type} {parse : Parse α} (function : ParseFunction rounds inner parse) (cursor : Cursor) (a : α)
    (after : Cursor) (run : parse cursor = .ok (a, after)) : cursor.Reaches after
  expression (least : Nat) : (Parse.expression rounds inner least).PassesWithNode
  unary : (Parse.unary rounds inner).PassesWithNode
  primary : (Parse.primary rounds inner).PassesWithNode
  statementsLoop (close : Option String) :
    Parse.statements rounds inner close = List.reverse <$> repeatStep (statementStep rounds inner close) rounds [] ∧
      PassesOrEnds (statementStep rounds inner close)
  listLoop (close : String) (separators : List String) :
    list rounds inner close separators = List.reverse <$> repeatStep (listStep inner close separators) rounds [] ∧
      PassesOrEnds (listStep inner close separators)
  arrayLoop (close : String) (mark : Mark) :
    array rounds inner close mark =
        (fun items => .array items.reverse mark) <$> repeatStep (arrayStep inner close) rounds [] ∧
      PassesOrEnds (arrayStep inner close)
  postfixesLoop (node : Node) :
    postfixes rounds inner node = repeatStep (postfixStep rounds inner) rounds node ∧
      PassesOrEnds (postfixStep rounds inner)
  expressionLoop (least : Nat) :
    Parse.expression rounds inner least = (do
        let some first ← Parse.unary rounds inner | return none
        return some (← repeatStep (expressionStep inner least) rounds first)) ∧
      PassesOrEnds (expressionStep inner least)
  computedClassLoop (name : String) :
    computedClass rounds name = repeatStep computedClassStep rounds name ∧ PassesOrEnds computedClassStep
  typeLoop (stops : List String) :
    skipType rounds stops = (fun _ => ()) <$> repeatStep (typeStep stops) rounds 0 ∧ PassesOrEnds (typeStep stops)
  importsLoop :
    skipImports rounds = (advance >>= fun _ => (fun _ => ()) <$> repeatStep importsStep rounds 0) ∧
      PassesOrEnds importsStep
  attributeLoop :
    skipAttribute rounds = (advance >>= fun _ => (fun _ => ()) <$> repeatStep attributeStep rounds 1) ∧
      PassesOrEnds attributeStep

namespace Parse

theorem Advances.reaches {α : Type} {parse : Parse α} {fails : Prop} {cursor after : Cursor} {a : α}
    (advances : parse.Advances fails cursor.ahead) (run : parse cursor = .ok (a, after)) : cursor.Reaches after := by
  have ends := advances cursor rfl
  rw [run] at ends
  exact ends.1

theorem passesWithNode {parse : Parse (Option Node)} {depth : Nat}
    (finds : ∀ before, parse.Finds (depth < before.length + 1) before) : parse.PassesWithNode := by
  intro cursor node after run
  have ends := finds cursor.ahead cursor rfl
  rw [run] at ends
  exact ⟨ends.1, ends.2 rfl⟩

theorem passesOrEnds {σ : Type} {step : σ → Parse (σ × Bool)} (depth : Nat)
    (turns : ∀ value before, (step value).Turns (depth < before.length + 1) before) : PassesOrEnds step := by
  intro value cursor next after run
  have ends := turns value cursor.ahead cursor rfl
  rw [run] at ends
  exact ⟨ends.1, ends.2 rfl⟩

end Parse

theorem Inner.Advances.progresses {inner : Inner} {depth : Nat} (advances : inner.Advances depth) (rounds : Nat) :
    inner.Progresses rounds where
  functions function _ _ _ run := (function.advances advances _).reaches run
  expression least := passesWithNode fun before => expression_finds advances least (Nat.le_succ before.length)
  unary := passesWithNode fun before => unary_finds advances (Nat.le_succ before.length)
  primary := passesWithNode fun before => primary_finds advances (Nat.le_succ before.length)
  statementsLoop close := ⟨statements_eq .., passesOrEnds depth fun nodes before =>
    statementStep_turns advances close nodes (Nat.le_succ before.length)⟩
  listLoop close separators := ⟨list_eq .., passesOrEnds depth fun nodes before =>
    listStep_turns advances close separators nodes (Nat.lt_succ_self before.length)⟩
  arrayLoop close _ := ⟨array_eq .., passesOrEnds depth fun items before =>
    arrayStep_turns advances close items (Nat.lt_succ_self before.length)⟩
  postfixesLoop _ := ⟨postfixes_eq .., passesOrEnds depth fun node before =>
    postfixStep_turns advances node (Nat.le_succ before.length)⟩
  expressionLoop least := ⟨expression_eq .., passesOrEnds depth fun left before =>
    expressionStep_turns advances least left (Nat.le_succ before.length)⟩
  computedClassLoop _ := ⟨computedClass_eq .., passesOrEnds depth fun name _ => computedClassStep_turns name⟩
  typeLoop stops := ⟨skipType_eq .., passesOrEnds depth fun inside _ => typeStep_turns stops inside⟩
  importsLoop := ⟨skipImports_eq _, passesOrEnds depth fun inside _ => importsStep_turns inside⟩
  attributeLoop := ⟨skipAttribute_eq _, passesOrEnds depth fun inside _ => attributeStep_turns inside⟩

/-! ### Whole runs -/

theorem exists_of_map_eq_ok {α β : Type} {parse : Parse α} {f : α → β} {b : β} {cursor after : Cursor}
    (run : (f <$> parse) cursor = .ok (b, after)) : ∃ a, parse cursor = .ok (a, after) := by
  simp only [Functor.map, StateT.map, Bind.bind, Except.bind] at run
  cases result : parse cursor with
  | error fault => rw [result] at run; cases run
  | ok result' => rw [result] at run; cases run; exact ⟨result'.1, rfl⟩

/-- Where the loop over a source asks for no other round no tokens are left. -/
theorem rest_eq_nil_of_last_round {rounds : Nat} {inner : Inner} {nodes found : List Node} {cursor after : Cursor}
    (run : statementStep rounds inner none nodes cursor = .ok ((found, false), after)) : after.rest = [] := by
  cases ahead : cursor.ahead with
  | nil =>
    have settled := Cursor.settle_rest_eq_nil ahead
    have stopped : statementStep rounds inner none nodes cursor = .ok ((nodes, false), cursor.settle) := by
      simp [statementStep, peek, settled, Cursor.ahead?, Bind.bind, StateT.bind, Except.bind]
      rfl
    rw [stopped] at run
    cases run
    exact settled
  | cons token rest =>
    have further : (statementStep rounds inner none nodes).Yields (token :: rest) fun result _ => result.2 = true := by
      refine .bind (.peek (.ite (fun no => absurd no Bool.false_ne_true) fun _ =>
        .ite (fun no => absurd no Bool.false_ne_true) fun _ => ?_))
      have anything : (statement rounds inner).Yields (token :: rest) fun _ _ => True := fun _ _ _ _ _ => trivial
      refine .bind (.position fun start => .andThen anything fun found after _ => .bind (.position fun now => ?_))
      exact .ite (fun _ => .bind (.skip (.pure rfl))) fun _ => .pure rfl
    cases further cursor _ after ahead run

/-- Reading the statements of all the tokens of a source. -/
def sourceRun (rounds depth : Nat) (tokens : List Token) : Except NestingFault (List Node × Cursor) :=
  (Inner.ofDepth rounds depth).statements none { rest := tokens }

/-- A run takes every token, unless they are nested too deeply, for which there must be as many
tokens as levels. -/
theorem sourceRun_ends {tokens : List Token} {rounds : Nat} (depth : Nat) (enough : tokens.length < rounds) :
    match sourceRun rounds depth tokens with
    | .error _ => depth ≤ tokens.length
    | .ok (_, after) => after.rest = [] ∧ after.position = tokens.length := by
  have shorter : (Cursor.ahead { rest := tokens }).length ≤ tokens.length := List.length_filter_le _ _
  have ends := (Inner.ofDepth_advances rounds depth).statements none (Nat.lt_succ_of_le shorter) { rest := tokens } rfl
  rw [← sourceRun] at ends
  cases run : sourceRun rounds depth tokens with
  | error fault =>
    rw [run] at ends
    exact Nat.le_of_lt_succ ends
  | ok result =>
    obtain ⟨nodes, after⟩ := result
    rw [run] at ends
    have nothing : after.rest = [] := by
      cases depth with
      | zero => cases run
      | succ depth =>
        have progresses := (Inner.ofDepth_advances rounds depth).progresses rounds
        obtain ⟨found, loop⟩ := exists_of_map_eq_ok
          (show (List.reverse <$> repeatStep (statementStep rounds (Inner.ofDepth rounds depth) none) rounds [])
            { rest := tokens } = .ok (nodes, after) from run)
        obtain ⟨last, middle, -, lastRound⟩ :=
          exists_last_round (progresses.statementsLoop none).2 (Nat.lt_of_le_of_lt shorter enough) loop
        exact rest_eq_nil_of_last_round lastRound
    have place := ends.1.place
    rw [nothing] at place
    exact ⟨nothing, by simpa using place⟩

/-- Rounds beyond the tokens change nothing. -/
theorem sourceLoop_congr_rounds {tokens : List Token} {rounds more : Nat} (enough : tokens.length < rounds)
    (enoughMore : tokens.length < more) (depth : Nat) :
    sourceLoop depth rounds rounds [] { rest := tokens } = sourceLoop depth more more [] { rest := tokens } := by
  let runs : Runs := ⟨tokens, [], rounds, more, 0, 0⟩
  have here (cursor : Cursor) : runs.other cursor = cursor := by simp [runs, Runs.other]
  have shorter : (Cursor.ahead { rest := tokens }).length ≤ tokens.length := List.length_filter_le _ _
  have agrees : runs.SameEnd (fun _ _ => True) { rest := tokens } (sourceLoop depth rounds rounds [] { rest := tokens })
      (sourceLoop depth more more [] (runs.other { rest := tokens })) :=
    agrees_sourceLoop depth rfl [] (Nat.lt_of_le_of_lt shorter enough) (Nat.lt_of_le_of_lt shorter enoughMore)
      { rest := tokens } ⟨enough, enoughMore, .inl rfl⟩ rfl
  rw [here] at agrees
  cases run : sourceLoop depth rounds rounds [] { rest := tokens } with
  | error fault =>
    rw [run] at agrees
    exact agrees.symm
  | ok result =>
    rw [run] at agrees
    rw [agrees.1, here]

theorem parseTokens_eq_of_rounds {tokens : List Token} {rounds : Nat}
    (enough : (significantTokens tokens).length < rounds) (limit : Nat) :
    parseTokens tokens limit = (fun result => (result.1, result.2.skipped)) <$>
      sourceRun rounds limit (significantTokens tokens) := by
  cases limit with
  | zero => rfl
  | succ depth =>
    have nested : sourceRun rounds (depth + 1) (significantTokens tokens) =
        (List.reverse <$> sourceLoop depth rounds rounds []) { rest := significantTokens tokens } := rfl
    rw [parseTokens_eq, sourceLoop_congr_rounds (Nat.lt_succ_self _) enough, nested]
    simp only [Functor.map, StateT.map, Bind.bind, Except.bind]
    cases sourceLoop depth rounds rounds [] { rest := significantTokens tokens } with
    | error fault => rfl
    | ok result => rfl

/-- Whatever the tokens are, parsing them comes to its end: rounds beyond the tokens change nothing, and
however deeply it may nest, it takes every token or fails before at least as many tokens as levels. Its
parse functions make progress at every depth. -/
theorem parseTokens_progresses (tokens : List Token) :
    (∀ rounds, (significantTokens tokens).length < rounds →
      ∀ limit, parseTokens tokens limit = (fun result => (result.1, result.2.skipped)) <$>
          sourceRun rounds limit (significantTokens tokens) ∧
        match sourceRun rounds limit (significantTokens tokens) with
          | .error _ => limit ≤ (significantTokens tokens).length
          | .ok (_, after) => after.rest = [] ∧ after.position = (significantTokens tokens).length) ∧
    ∀ rounds depth, (Inner.ofDepth rounds depth).Progresses rounds :=
  ⟨fun _ enough limit => ⟨parseTokens_eq_of_rounds enough limit, sourceRun_ends limit enough⟩,
    fun rounds depth => (Inner.ofDepth_advances rounds depth).progresses rounds⟩

/-- A stray closing parenthesis before a call that is not closed. -/
def unclosedCall : List Token :=
  [⟨.punctuation, ")", ")", 1, false⟩, ⟨.name, "f", "f", 1, false⟩, ⟨.punctuation, "(", "(", 1, false⟩]

/-- The call is read to its end, in nine rounds as well. -/
theorem unclosedCall_is_read_whole :
    (significantTokens unclosedCall).length < 9 ∧ ∃ nodes after,
      sourceRun 9 maxNesting (significantTokens unclosedCall) = .ok (nodes, after) ∧
        parseTokens unclosedCall = .ok (nodes, after.skipped) ∧ after.rest = [] ∧ after.position = 3 := by
  have few : (significantTokens unclosedCall).length < 9 := by decide
  obtain ⟨same, ends⟩ := (parseTokens_progresses unclosedCall).1 9 few maxNesting
  refine ⟨few, ?_⟩
  cases run : sourceRun 9 maxNesting (significantTokens unclosedCall) with
  | error fault =>
    rw [run] at ends
    exact absurd (show maxNesting ≤ (significantTokens unclosedCall).length from ends) (by decide)
  | ok result =>
    rw [run] at same ends
    exact ⟨result.1, result.2, rfl, same, ends⟩

end FormHarvest
