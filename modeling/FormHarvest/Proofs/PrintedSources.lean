import FormHarvest.Proofs.ReadExpressions

namespace FormHarvest

namespace Parse

open Expression

variable {rounds depth : Nat} {inner : Inner}

/-! ### Rounds of statements -/

/-- The rounds of a block. -/
structure StatementsStep (rounds : Nat) (inner : Inner) (close : Option String)
    (step : List Node → Parse (List Node × Bool)) : Prop where
  ends (nodes : List Node) (position skipped : Nat) :
    step nodes ⟨[], none, position, skipped⟩ = .ok ((nodes, false), ⟨[], none, position, skipped⟩)
  closes (isBlock : close = some closeBrace) (nodes : List Node) (raw : String) (line : Nat)
    (rest : List Token) (position skipped : Nat) :
    step nodes ⟨(Lexeme.sign .closeBrace).token raw line :: rest, none, position, skipped⟩ =
      .ok ((nodes, false), ⟨rest, none, position + 1, skipped⟩)
  reads (nodes : List Node) {token : Token} {rest after : List Token} {found : List Node}
    {position further skipped : Nat} (isRead : token.isRead = true)
    (noClose : isSign (some token) closeBrace = false)
    (read : statement rounds inner ⟨token :: rest, none, position, skipped⟩ =
      .ok (found, ⟨after, none, further, skipped⟩)) (moved : position < further) :
    step nodes ⟨token :: rest, none, position, skipped⟩ =
      .ok ((found.reverse ++ nodes, true), ⟨after, none, further, skipped⟩)

variable (rounds inner) in
theorem exists_statementsStep (close : Option String) (closes : close = none ∨ close = some closeBrace) :
    ∃ step, statements rounds inner close = List.reverse <$> repeatStep step rounds [] ∧
      StatementsStep rounds inner close step := by
  refine ⟨_, rfl, ⟨fun _ _ _ => rfl, ?_, ?_⟩⟩
  · rintro rfl nodes raw line rest position skipped
    rfl
  · intro nodes token rest after found position further skipped isRead noClose read moved
    have noEnd : close.any (isSign (some token)) = false := by
      rcases closes with rfl | rfl
      · rfl
      · exact noClose
    have start : Parse.position ⟨token :: rest, none, position, skipped⟩ =
      .ok (position, ⟨token :: rest, none, position, skipped⟩) := rfl
    have behind : Parse.position ⟨after, none, further, skipped⟩ =
      .ok (further, ⟨after, none, further, skipped⟩) := rfl
    have other : (further == position) = false := beq_eq_false_iff_ne.mpr (by omega)
    simp only [bind_run (peek_run isRead), Option.isNone_some, noEnd, Bool.false_eq_true, if_false,
      bind_run start, bind_run read, bind_run behind, other]
    rfl

/-- What opens like an expression is a statement of its own. -/
theorem namedStatement_expression {token : Token} {rest : List Token} {position skipped : Nat}
    (opens : Opens leadSigns token rest) (name : token.kind = .name) :
    namedStatement rounds inner token ⟨token :: rest, none, position, skipped⟩ =
      expressionStatement rounds inner ⟨token :: rest, none, position, skipped⟩ := by
  have absent := opens.word name
  have other (word : String) (reserved : word ∈ keywords) : (lowercase token.text == word) = false :=
    beq_eq_false_iff_ne.mpr fun same => absent (same ▸ reserved)
  have outside (words : List String) (sub : words ⊆ keywords) :
      words.contains (lowercase token.text) = false := by
    simpa using fun member => absent (sub member)
  simp only [namedStatement, bind_run (peek_second_run opens.isRead), bind_run (peek_third_run opens.isRead),
    other "namespace" (by decide), other "use" (by decide), outside classWords (by decide),
    outside modifiers (by decide), other "static" (by decide), other "function" (by decide),
    other "const" (by decide), other "case" (by decide), other "default" (by decide),
    outside openingWords (by decide), Bool.false_and, Bool.or_false, Bool.false_eq_true, if_false]

theorem statement_expression {token : Token} {rest : List Token} {position skipped : Nat} {node : Node}
    {after : Cursor} (opens : Opens leadSigns token rest)
    (read : expression rounds inner 0 ⟨token :: rest, none, position, skipped⟩ = .ok (some node, after)) :
    statement rounds inner ⟨token :: rest, none, position, skipped⟩ = .ok ([node], after) := by
  have whole : expressionStatement rounds inner ⟨token :: rest, none, position, skipped⟩ = .ok ([node], after) :=
    map_run (f := Option.toList) read
  simp only [statement, bind_run (peek_run opens.isRead), opens.sign ";" (by decide),
    opens.sign openBrace (by decide), opens.sign closeBrace (by decide), opens.sign "#[" (by decide),
    Bool.false_eq_true, if_false]
  cases name : token.kind == .name with
  | false => simpa using whole
  | true => simpa [namedStatement_expression opens (by simpa using name)] using whole

/-- An expression and the semicolon behind it take two rounds. -/
theorem StatementsStep.repeats_expression {close : Option String}
    {step : List Node → Parse (List Node × Bool)} (loop : StatementsStep rounds inner close step)
    (nodes : List Node) {tokens others rest : List Token} {token : Token} {raw : String} {line : Nat}
    {position skipped : Nat} {node : Node}
    (whole : tokens ++ (Lexeme.sign .semicolon).token raw line :: rest = token :: others)
    (opens : Opens leadSigns token others) (filled : 0 < tokens.length)
    (read : expression rounds inner 0
      ⟨tokens ++ (Lexeme.sign .semicolon).token raw line :: rest, none, position, skipped⟩ =
        .ok (some node, ⟨(Lexeme.sign .semicolon).token raw line :: rest, none,
          position + tokens.length, skipped⟩)) :
    Repeats step nodes ⟨tokens ++ (Lexeme.sign .semicolon).token raw line :: rest, none, position, skipped⟩
      (node :: nodes) ⟨rest, none, position + (tokens.length + 1), skipped⟩ := by
  rw [whole] at read
  have first := loop.reads nodes opens.isRead (opens.sign closeBrace (by decide))
    (statement_expression opens read) (by omega)
  have passed : statement rounds inner ⟨(Lexeme.sign .semicolon).token raw line :: rest, none,
      position + tokens.length, skipped⟩ =
        .ok ([], ⟨rest, none, position + (tokens.length + 1), skipped⟩) := rfl
  have second := loop.reads (node :: nodes) rfl rfl passed (by omega)
  rw [whole]
  refine .next first ?_ (.one second (by simp))
  rw [← whole]
  simpa using filled

theorem lowercase_classWord : lowercase classWord.lexeme.text = "class" := by decide +kernel

theorem lowercase_publicWord : lowercase publicWord.lexeme.text = "public" := by decide +kernel

theorem lowercase_functionWord : lowercase functionWord.lexeme.text = "function" := by decide +kernel

/-- A block in braces. -/
theorem optionalBlock_run {raw : String} {line : Nat} {rest : List Token} {position skipped : Nat}
    {found : List Node} {after : Cursor}
    (read : inner.statements (some closeBrace) ⟨rest, none, position + 1, skipped⟩ = .ok (found, after)) :
    optionalBlock inner ⟨(Lexeme.sign .openBrace).token raw line :: rest, none, position, skipped⟩ =
      .ok (found, after) := read

theorem list_nothing (someRounds : 0 < rounds) (raw : String) (line : Nat) (rest : List Token)
    (position skipped : Nat) :
    list rounds inner ")" [",", ";", "=>"]
        ⟨(Lexeme.sign .closeParen).token raw line :: rest, none, position, skipped⟩ =
      .ok ([], ⟨rest, none, position + 1, skipped⟩) := by
  obtain ⟨rounds, rfl⟩ : ∃ fewer, rounds = fewer + 1 := ⟨rounds - 1, by omega⟩
  rfl

theorem skipType_openBrace (someRounds : 0 < rounds) (raw : String) (line : Nat) (rest : List Token)
    (position skipped : Nat) :
    skipType rounds [openBrace, ";"]
        ⟨(Lexeme.sign .openBrace).token raw line :: rest, none, position, skipped⟩ =
      .ok ((), ⟨(Lexeme.sign .openBrace).token raw line :: rest, none, position, skipped⟩) := by
  obtain ⟨rounds, rfl⟩ : ∃ fewer, rounds = fewer + 1 := ⟨rounds - 1, by omega⟩
  rfl

/-! ### Statements that start with a keyword -/

section Keyword

variable {token next : Token} {rest : List Token} {position skipped : Nat} (name : token.kind = .name)

include name

theorem statement_of_name :
    statement rounds inner ⟨token :: rest, none, position, skipped⟩ =
      namedStatement rounds inner token ⟨token :: rest, none, position, skipped⟩ := by
  have isRead : token.isRead = true := by simp [Token.isRead, name]
  have sign (text : String) : isSign (some token) text = false := by simp [isSign, name]
  simp [statement, bind_run (peek_run isRead), sign, name]

theorem namedStatement_public (word : lowercase token.text = "public") :
    namedStatement rounds inner token ⟨token :: rest, none, position, skipped⟩ =
      .ok ([], ⟨rest, none, position + 1, skipped⟩) := by
  have isRead : token.isRead = true := by simp [Token.isRead, name]
  have passed : ((fun _ => ([] : List Node)) <$> advance) ⟨token :: rest, none, position, skipped⟩ =
    .ok ([], ⟨rest, none, position + 1, skipped⟩) := map_run (advance_run isRead)
  simpa [namedStatement, bind_run (peek_second_run isRead), bind_run (peek_third_run isRead), word,
    classWords, modifiers, passOver] using passed

theorem namedStatement_class (word : lowercase token.text = "class") (named : next.kind = .name) :
    namedStatement rounds inner token ⟨token :: next :: rest, none, position, skipped⟩ =
      (List.singleton <$> classDeclaration rounds inner) ⟨token :: next :: rest, none, position, skipped⟩ := by
  have isRead : token.isRead = true := by simp [Token.isRead, name]
  have nextRead : next.isRead = true := by simp [Token.isRead, named]
  have isName : isKind (some next) .name = true := by simp [isKind, named]
  simp [namedStatement, bind_run (peek_second_run isRead), bind_run (peek_third_run isRead), word,
    classWords, ahead?_cons nextRead, isName]
  rfl

theorem namedStatement_function (word : lowercase token.text = "function") (named : next.kind = .name) :
    namedStatement rounds inner token ⟨token :: next :: rest, none, position, skipped⟩ =
      functionDeclaration rounds inner ⟨token :: next :: rest, none, position, skipped⟩ := by
  have isRead : token.isRead = true := by simp [Token.isRead, name]
  have nextRead : next.isRead = true := by simp [Token.isRead, named]
  have isName : isKind (some next) .name = true := by simp [isKind, named]
  simp [namedStatement, bind_run (peek_second_run isRead), bind_run (peek_third_run isRead), word,
    classWords, modifiers, ahead?_cons nextRead, isName]

end Keyword

/-- A class with its block. -/
theorem classDeclaration_run (someRounds : 0 < rounds) (name : Identifier) {raw nameRaw braceRaw : String}
    {line nameLine braceLine : Nat} {rest : List Token} {position skipped : Nat} {found : List Node}
    {after : Cursor}
    (read : inner.statements (some closeBrace) ⟨rest, none, position + 3, skipped⟩ = .ok (found, after)) :
    classDeclaration rounds inner ⟨classWord.lexeme.token raw line :: name.lexeme.token nameRaw nameLine ::
        (Lexeme.sign .openBrace).token braceRaw braceLine :: rest, none, position, skipped⟩ =
      .ok (.classBody name.text found { line }, after) := by
  have keyword : (classWord.lexeme.token raw line).isRead = true := rfl
  have named : (name.lexeme.token nameRaw nameLine).isRead = true := rfl
  have text : (name.lexeme.token nameRaw nameLine).text = name.text := name.text_lexeme
  rw [classDeclaration, bind_run (advance_run keyword), bind_run (advance_run named),
    bind_run (skipType_openBrace someRounds braceRaw braceLine rest _ skipped), bind_run (optionalBlock_run read),
    ← text]
  rfl

/-- A function without parameters with its block. -/
theorem functionDeclaration_run (someRounds : 0 < rounds) (name : Identifier)
    {raw nameRaw openRaw closeRaw braceRaw : String} {line nameLine openLine closeLine braceLine : Nat}
    {rest : List Token} {position skipped : Nat} {found : List Node} {after : Cursor}
    (read : inner.statements (some closeBrace) ⟨rest, none, position + 5, skipped⟩ = .ok (found, after)) :
    functionDeclaration rounds inner ⟨functionWord.lexeme.token raw line ::
        name.lexeme.token nameRaw nameLine :: (Lexeme.sign .openParen).token openRaw openLine ::
        (Lexeme.sign .closeParen).token closeRaw closeLine ::
        (Lexeme.sign .openBrace).token braceRaw braceLine :: rest, none, position, skipped⟩ =
      .ok (found, after) := by
  have keyword : (functionWord.lexeme.token raw line).isRead = true := rfl
  have named : (name.lexeme.token nameRaw nameLine).isRead = true := rfl
  have noReference : isSign (some (name.lexeme.token nameRaw nameLine)) "&" = false := rfl
  have paren : ((Lexeme.sign .openParen).token openRaw openLine).isRead = true := rfl
  have isParen : isSign (some ((Lexeme.sign .openParen).token openRaw openLine)) "(" = true := rfl
  have brace : ((Lexeme.sign .openBrace).token braceRaw braceLine).isRead = true := rfl
  have noType : isSign (some ((Lexeme.sign .openBrace).token braceRaw braceLine)) ":" = false := rfl
  rw [functionDeclaration, bind_run (advance_run keyword), bind_run (takeSign_run_other named noReference),
    bind_run (advance_run named), bind_run (takeSign_run paren isParen), if_pos rfl,
    bind_run (list_nothing someRounds closeRaw closeLine _ _ skipped)]
  simp only [bind_run (takeSign_run_other brace noType), Bool.false_eq_true, if_false,
    bind_run (optionalBlock_run read)]
  rfl

theorem statement_public (raw : String) (line : Nat) (rest : List Token) (position skipped : Nat) :
    statement rounds inner ⟨publicWord.lexeme.token raw line :: rest, none, position, skipped⟩ =
      .ok ([], ⟨rest, none, position + 1, skipped⟩) := by
  rw [statement_of_name rfl, namedStatement_public rfl lowercase_publicWord]

theorem statement_function (someRounds : 0 < rounds) (name : Identifier)
    {raw nameRaw openRaw closeRaw braceRaw : String} {line nameLine openLine closeLine braceLine : Nat}
    {rest : List Token} {position skipped : Nat} {found : List Node} {after : Cursor}
    (read : inner.statements (some closeBrace) ⟨rest, none, position + 5, skipped⟩ = .ok (found, after)) :
    statement rounds inner ⟨functionWord.lexeme.token raw line ::
        name.lexeme.token nameRaw nameLine :: (Lexeme.sign .openParen).token openRaw openLine ::
        (Lexeme.sign .closeParen).token closeRaw closeLine ::
        (Lexeme.sign .openBrace).token braceRaw braceLine :: rest, none, position, skipped⟩ =
      .ok (found, after) := by
  rw [statement_of_name rfl, namedStatement_function rfl lowercase_functionWord rfl]
  exact functionDeclaration_run someRounds name read

theorem statement_class (someRounds : 0 < rounds) (name : Identifier) {raw nameRaw braceRaw : String}
    {line nameLine braceLine : Nat} {rest : List Token} {position skipped : Nat} {found : List Node}
    {after : Cursor}
    (read : inner.statements (some closeBrace) ⟨rest, none, position + 3, skipped⟩ = .ok (found, after)) :
    statement rounds inner ⟨classWord.lexeme.token raw line :: name.lexeme.token nameRaw nameLine ::
        (Lexeme.sign .openBrace).token braceRaw braceLine :: rest, none, position, skipped⟩ =
      .ok ([.classBody name.text found { line }], after) := by
  rw [statement_of_name rfl, namedStatement_class rfl lowercase_classWord rfl]
  exact map_run (classDeclaration_run someRounds name read)

/-! ### Blocks -/

/-- The rounds of a block read a part of it as some trees, whatever follows it. -/
def RoundsRead (rounds : Nat) (step : List Node → Parse (List Node × Bool)) (written : List Lexeme)
    (trees : List Node) : Prop :=
  ∀ (nodes : List Node) {tokens : List Token} (rest : List Token) (position skipped : Nat), Stands written tokens →
    tokens.length + rest.length < rounds →
    ∃ found : List Node, found.map Node.withoutLines = trees ∧
      Repeats step nodes ⟨tokens ++ rest, none, position, skipped⟩ (found.reverse ++ nodes)
        ⟨rest, none, position + tokens.length, skipped⟩

namespace RoundsRead

variable {step : List Node → Parse (List Node × Bool)} {close : Option String}
  {first second : List Lexeme} {trees others : List Node}

theorem nil : RoundsRead rounds step [] [] := by
  intro nodes tokens rest position skipped stands _
  cases stands
  exact ⟨[], rfl, .refl _ _⟩

theorem append (former : RoundsRead rounds step first trees) (latter : RoundsRead rounds step second others) :
    RoundsRead rounds step (first ++ second) (trees ++ others) := by
  intro nodes tokens rest position skipped stands enough
  obtain ⟨front, back, rfl, atFirst, atSecond⟩ := stands.exists_append
  simp only [List.length_append] at enough
  obtain ⟨found, same, repeats⟩ := former nodes (back ++ rest) position skipped atFirst
    (by simp only [List.length_append]; omega)
  obtain ⟨further, sameOthers, more⟩ := latter (found.reverse ++ nodes) rest (position + front.length)
    skipped atSecond (by omega)
  refine ⟨found ++ further, by rw [List.map_append, same, sameOthers], ?_⟩
  simpa [Nat.add_assoc] using repeats.trans more

theorem flatMap {ι : Type} (written : ι → List Lexeme) (trees : ι → List Node) (parts : List ι)
    (one : ∀ part ∈ parts, RoundsRead rounds step (written part) (trees part)) :
    RoundsRead rounds step (parts.flatMap written) (parts.flatMap trees) := by
  induction parts with
  | nil => exact nil
  | cons part parts ih =>
    exact (one part (List.mem_cons_self ..)).append (ih fun other member => one other (List.mem_cons_of_mem _ member))

/-- A block that is a list of parts is read up to and with its closing brace. -/
theorem block (loop : StatementsStep rounds inner (some closeBrace) step)
    (isLoop : statements rounds inner (some closeBrace) = List.reverse <$> repeatStep step rounds [])
    (reads : RoundsRead rounds step first trees) {tokens : List Token} (rest : List Token)
    (position skipped : Nat) (stands : Stands (first ++ [.sign .closeBrace]) tokens)
    (enough : tokens.length + rest.length < rounds) :
    ∃ found : List Node, found.map Node.withoutLines = trees ∧
      statements rounds inner (some closeBrace) ⟨tokens ++ rest, none, position, skipped⟩ =
        .ok (found, ⟨rest, none, position + tokens.length, skipped⟩) := by
  obtain ⟨inside, closing, rfl, atInside, atClosing⟩ := stands.exists_append
  obtain ⟨raw, line, rfl⟩ := atClosing.exists_singleton
  simp only [List.length_append, List.length_singleton] at enough
  obtain ⟨found, same, repeats⟩ := reads [] ((Lexeme.sign .closeBrace).token raw line :: rest) position
    skipped atInside (by simp only [List.length_cons]; omega)
  have closed := loop.closes rfl (found.reverse ++ []) raw line rest (position + inside.length) skipped
  have run : repeatStep step rounds [] _ = _ :=
    repeats.repeatStep_run closed (by simp only [List.length_append, List.length_cons]; omega)
  refine ⟨found, same, ?_⟩
  rw [isLoop]
  simpa [Nat.add_assoc] using map_run (f := List.reverse) run

/-- A whole source is read up to its end. -/
theorem source (loop : StatementsStep rounds inner none step)
    (isLoop : statements rounds inner none = List.reverse <$> repeatStep step rounds [])
    (reads : RoundsRead rounds step first trees) {tokens : List Token} (stands : Stands first tokens)
    (enough : tokens.length < rounds) :
    ∃ (found : List Node) (after : Cursor), found.map Node.withoutLines = trees ∧ after.skipped = 0 ∧
      statements rounds inner none { rest := tokens } = .ok (found, after) := by
  obtain ⟨found, same, repeats⟩ := reads [] [] 0 0 stands enough
  rw [List.append_nil] at repeats
  have run : repeatStep step rounds [] _ = _ :=
    repeats.repeatStep_run (loop.ends (found.reverse ++ []) _ 0) enough
  refine ⟨found, ⟨[], none, 0 + tokens.length, 0⟩, same, rfl, ?_⟩
  rw [isLoop]
  simpa using map_run (f := List.reverse) run

/-! ### Parts of a block -/

variable {depth : Nat}

theorem expression (reads : InnerReads rounds inner depth) (loop : StatementsStep rounds inner close step)
    (expression : Expression) (small : expression.nesting ≤ depth) :
    RoundsRead rounds step expression.statementLexemes [expression.node] := by
  intro nodes tokens rest position skipped stands enough
  obtain ⟨front, back, rfl, atExpression, atEnd⟩ := stands.exists_append
  obtain ⟨raw, line, rfl⟩ := atEnd.exists_singleton
  simp only [List.length_append, List.length_singleton] at enough
  have follows : Follows ((Lexeme.sign .semicolon).token raw line :: rest) :=
    .intro .semicolon rfl raw line rest
  have continues : Continues true ((Lexeme.sign .semicolon).token raw line) := ⟨rfl, rfl, rfl, nofun⟩
  obtain ⟨node, same, read⟩ := reads.expression_zero expression small position skipped atExpression follows
    (by simp only [List.length_cons]; omega)
  obtain ⟨token, others, whole, opens⟩ := expression.showsLead rest atExpression continues
  refine ⟨[node], by simp [same], ?_⟩
  rw [List.append_assoc, List.singleton_append, List.length_append, List.length_singleton]
  exact loop.repeats_expression nodes whole (opens.mono expression.leads_subset)
    (expression.length_pos_of_stands atExpression) read

/-- A method holds what its body holds. -/
theorem method (loop : StatementsStep rounds (Inner.ofDepth rounds depth) close step) (method : Method)
    (small : method.nesting ≤ depth) : RoundsRead rounds step method.lexemes method.nodes := by
  obtain ⟨depth, rfl⟩ : ∃ less, depth = less + 1 := ⟨depth - 1, by simp only [Method.nesting] at small; omega⟩
  intro nodes tokens rest position skipped stands enough
  obtain ⟨raw, line, _, rfl, atFunction⟩ := stands.exists_cons
  obtain ⟨functionRaw, functionLine, _, rfl, atName⟩ := atFunction.exists_cons
  obtain ⟨nameRaw, nameLine, _, rfl, atOpen⟩ := atName.exists_cons
  obtain ⟨openRaw, openLine, _, rfl, atClose⟩ := atOpen.exists_cons
  obtain ⟨closeRaw, closeLine, _, rfl, atBrace⟩ := atClose.exists_cons
  obtain ⟨braceRaw, braceLine, body, rfl, atBody⟩ := atBrace.exists_cons
  simp only [List.length_cons] at enough
  obtain ⟨bodyStep, isBody, bodyLoop⟩ :=
    exists_statementsStep rounds (Inner.ofDepth rounds depth) (some closeBrace) (.inr rfl)
  have reads : RoundsRead rounds bodyStep (method.body.flatMap Expression.statementLexemes) method.nodes := by
    rw [Method.nodes, List.map_eq_flatMap]
    refine flatMap _ _ _ fun value member => expression (innerReads_ofDepth rounds depth) bodyLoop value ?_
    have below := le_deepest (List.mem_map_of_mem (f := Expression.nesting) member)
    simp only [Method.nesting] at small
    omega
  obtain ⟨found, same, read⟩ := reads.block bodyLoop isBody rest (position + 1 + 5) skipped atBody (by omega)
  have place : position + (body.length + 1 + 1 + 1 + 1 + 1 + 1) = position + 1 + 5 + body.length := by omega
  simp only [List.length_cons, place]
  refine ⟨found, same,
    .next (loop.reads nodes rfl rfl (statement_public raw line _ position skipped) (by omega)) (by simp)
      (.one (loop.reads nodes rfl rfl (statement_function (by omega) method.name read) (by omega)) ?_)⟩
  simp
  omega

/-- A class holds what its methods hold. -/
theorem statement (loop : StatementsStep rounds (Inner.ofDepth rounds depth) close step)
    (statement : Statement) (small : statement.nesting ≤ depth) :
    RoundsRead rounds step statement.lexemes [statement.node] := by
  cases statement with
  | expression value => exact expression (innerReads_ofDepth rounds depth) loop value small
  | classBody name methods =>
    simp only [Statement.nesting] at small
    obtain ⟨depth, rfl⟩ : ∃ less, depth = less + 1 := ⟨depth - 1, by omega⟩
    intro nodes tokens rest position skipped stands enough
    obtain ⟨raw, line, _, rfl, atName⟩ := stands.exists_cons
    obtain ⟨nameRaw, nameLine, _, rfl, atBrace⟩ := atName.exists_cons
    obtain ⟨braceRaw, braceLine, body, rfl, atBody⟩ := atBrace.exists_cons
    simp only [List.length_cons] at enough
    obtain ⟨bodyStep, isBody, bodyLoop⟩ :=
      exists_statementsStep rounds (Inner.ofDepth rounds depth) (some closeBrace) (.inr rfl)
    have reads : RoundsRead rounds bodyStep (methods.flatMap Method.lexemes) (methods.flatMap Method.nodes) := by
      refine flatMap _ _ _ fun value member => method bodyLoop value ?_
      have below := le_deepest (List.mem_map_of_mem (f := Method.nesting) member)
      omega
    obtain ⟨found, same, read⟩ := reads.block bodyLoop isBody rest (position + 3) skipped atBody (by omega)
    have place : position + (body.length + 1 + 1 + 1) = position + 3 + body.length := by omega
    simp only [List.length_cons, place]
    refine ⟨[.classBody name.text found { line }], ?_,
      .one (loop.reads nodes rfl rfl (statement_class (by omega) name read) (by omega)) ?_⟩
    · simp [Node.withoutLines, Node.allWithoutLines_eq_map, same, Statement.node, Mark.withoutLine]
    · simp
      omega

end RoundsRead

end Parse

/-- **Parsing undoes printing.** Statements of the language of option maps that are written as a PHP
source are read as their trees, on whatever lines, and nothing is logged. So it is for every limit of
nesting that the statements stay under. -/
theorem parseSource_sourceText (path : String) (statements : List Statement) {limit : Nat} (positive : 0 < limit)
    (small : ∀ statement ∈ statements, statement.nesting < limit) :
    ∃ nodes, parseSource path (sourceText statements) limit = .ok (⟨path, nodes⟩, []) ∧
      nodes.map Node.withoutLines = statements.map Statement.node := by
  obtain ⟨depth, rfl⟩ : ∃ depth, limit = depth + 1 := Nat.exists_eq_succ_of_ne_zero (by omega)
  obtain ⟨tag, tokens, read, isTag, stands⟩ := exists_sourceTokens_phpSource (statements.flatMap Statement.lexemes)
  have significant : significantTokens (tag :: tokens) = tokens := by
    rw [significantTokens, List.filterMap_cons_none (by simp [isTag])]
    exact significantTokens_of_stands stands
  obtain ⟨step, isLoop, loop⟩ := Parse.exists_statementsStep (tokens.length + 1)
    (Inner.ofDepth (tokens.length + 1) depth) none (.inl rfl)
  have reads : Parse.RoundsRead (tokens.length + 1) step (statements.flatMap Statement.lexemes)
      (statements.map Statement.node) := by
    rw [List.map_eq_flatMap]
    exact .flatMap _ _ _ fun statement member => .statement loop statement (Nat.le_of_lt_succ (small _ member))
  obtain ⟨nodes, after, same, noSkip, run⟩ := reads.source loop isLoop stands (Nat.lt_succ_self _)
  have whole : (Inner.ofDepth (tokens.length + 1) (depth + 1)).statements none { rest := tokens } =
    .ok (nodes, after) := run
  have parsed : parseTokens (tag :: tokens) (depth + 1) = .ok (nodes, 0) := by
    simp only [parseTokens, significant, whole, noSkip]
  refine ⟨nodes, ?_, same⟩
  simp only [parseSource, sourceText, read, parsed]
  rfl

/-- A form type whose options hold a documented key, an array in its long form and a spread, and an
expression behind the class. -/
def personForm : List Statement :=
  let type : Name := ⟨⟨true, ⟨'F', ['o', 'r', 'm'], by decide, by decide⟩,
    [⟨'T', ['y', 'p', 'e'], by decide, by decide⟩]⟩, by decide +kernel⟩
  let builder : Identifier := ⟨'b', ['u', 'i', 'l', 'd', 'e', 'r'], by decide, by decide⟩
  let add : Identifier := ⟨'a', ['d', 'd'], arrayWord.starts, by decide⟩
  let person : Identifier := ⟨'P', ['e', 'r', 's', 'o', 'n'], by decide, by decide⟩
  let documented : DocBody := ⟨" @Desc(\"Name\") ".toList, by decide +kernel⟩
  let limit : Numeral := .hexadecimal false 'f' ['F'] (by decide)
  let choices : Expression := .array true
    [.keyed (.number true (.decimal '1' ['2'] (by decide) (by decide) (by decide))) (.classConstant type person),
      .spread (.callOf (.creation type []) [.number false limit])]
  let options : Expression := .array false
    [.documented documented "label" (.string "Your \"name\"\\ for $5"), .keyed (.string "choices") choices]
  [.classBody person [⟨add, [.methodCall (.methodCall (.var builder) (.named add) [.string "name", options])
      (.held add) [.constant type]]⟩],
    .expression (.property (.staticCall type add [.call type []]) (.named builder))]

theorem personForm_parsed :
    (∀ statement ∈ personForm, statement.nesting < maxNesting) ∧
      sourceText personForm = "<?php class Person\x7bpublic function add()\x7b$builder->add(\"name\"," ++
        "[/** @Desc(\"Name\") */\"label\"=>\"Your \\\"name\\\"\\\\ for \\$5\"," ++
        "\"choices\"=>array(-12=>\\Form\\Type::Person,...(new \\Form\\Type())(0xfF))])" ++
        "->$add(\\Form\\Type);\x7d\x7d\\Form\\Type::add(\\Form\\Type())->builder;" ∧
      ∃ nodes, parseSource "Person.php" (sourceText personForm) = .ok (⟨"Person.php", nodes⟩, []) ∧
        nodes.map Node.withoutLines = personForm.map Statement.node :=
  have small : ∀ statement ∈ personForm, statement.nesting < maxNesting := by decide +kernel
  ⟨small, by decide +kernel, parseSource_sourceText "Person.php" personForm (by decide) small⟩

end FormHarvest
