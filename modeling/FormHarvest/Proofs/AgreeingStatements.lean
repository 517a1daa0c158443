import FormHarvest.Proofs.AgreeingExpressions

namespace FormHarvest

open FormHarvest.Bound

namespace Parse

variable {runs : Runs} {inner inner' : Inner} {bound : Bound} {limit : Nat} {before rest : List Token}
  {token : Token}

theorem agrees_classDeclaration (alike : runs.Alike inner inner') (room : runs.Room bound (limit + 1) (token :: rest))
    (stops : HeadIn stopSigns bound) (ahead : Ahead bound (token :: rest))
    (ends : token.headEnds? rest.head? = some [openBrace, ";"]) (name : isKind rest.head? .name = true) :
    runs.Agrees (classDeclaration runs.rounds inner) (classDeclaration runs.otherRounds inner') (token :: rest)
      fun _ after => runs.Room bound limit after := by
  obtain ⟨head, roomHead, atStop, -, outer⟩ := room.head stops ahead ends
  have roomName := room_tail_of_isKind roomHead atStop (by decide) name
  refine .advance room.filled (.advance roomHead.filled ?_)
  refine .andThen (Runs.agrees_skipType (List.Subset.refl _) roomName atStop) fun _ after roomHead => ?_
  exact .andThen (agrees_optionalBlock alike (outer _ _ roomHead) stops (by decide)) fun body after room =>
    .pure room

theorem agrees_functionDeclaration (alike : runs.Alike inner inner')
    (room : runs.Room bound (limit + 1) (token :: rest)) (stops : HeadIn stopSigns bound)
    (ahead : Ahead bound (token :: rest)) (ends : token.headEnds? rest.head? = some [openBrace, ";"])
    (name : isKind rest.head? .name = true ∨ isSign rest.head? "&" = true ∧ isKind rest.tail.head? .name = true) :
    runs.Agrees (functionDeclaration runs.rounds inner) (functionDeclaration runs.otherRounds inner')
      (token :: rest) fun _ after => runs.Room bound limit after := by
  obtain ⟨head, roomHead, atStop, -, outer⟩ := room.head stops ahead ends
  unfold functionDeclaration
  refine .advance room.filled ?_
  extract_lets behindParameters behindParameters'
  have atParameters (parameters : List Node) (before : List Token) (roomHead : runs.Room head limit before) :
      runs.Agrees (behindParameters parameters) (behindParameters' parameters) before
        fun _ after => runs.Room bound limit after := by
    refine agrees_takeSign roomHead atStop (by decide) fun taken before roomHead => ?_
    extract_lets behindType behindType'
    have atType (before : List Token) (room : runs.Room bound limit before) :
        runs.Agrees (behindType ()) (behindType' ()) before fun _ after => runs.Room bound limit after :=
      .andThen (agrees_optionalBlock alike room stops (by decide)) fun body after room => .pure room
    refine .ite (fun _ => ?_) fun _ => atType before (outer _ _ roomHead)
    exact .andThen (Runs.agrees_skipType (List.Subset.refl _) roomHead atStop) fun _ after roomHead =>
      atType after (outer _ _ roomHead)
  have atName (before : List Token) (roomHead : runs.Room head limit before) (name : isKind before.head? .name = true) :
      runs.Agrees (advance >>= fun _ => takeSign "(" >>= fun taken =>
          if taken then list runs.rounds inner ")" >>= behindParameters else pure [] >>= behindParameters)
        (advance >>= fun _ => takeSign "(" >>= fun taken =>
          if taken then list runs.otherRounds inner' ")" >>= behindParameters' else pure [] >>= behindParameters')
        before fun _ after => runs.Room bound limit after := by
    have roomName := room_tail_of_isKind roomHead atStop (by decide) name
    exact .advance roomHead.filled (agrees_bracketed alike roomName atStop (by decide) Token.closing?_eq_paren.mpr
      atParameters (.andThen (.pure roomName) fun parameters after room => atParameters parameters after room))
  refine .takeSign roomHead.filled (fun reference => ?_) fun noReference => ?_
  · cases rest with
    | nil => cases reference
    | cons second rest =>
      refine atName rest (roomHead.drop (roomHead.ahead_of_isSign atStop reference (by decide))) ?_
      rcases name with name | ⟨-, name⟩
      · exact absurd name (isKind_eq_false_of_isSign reference (by decide) (by decide))
      · exact name
  · refine atName rest roomHead ?_
    rcases name with name | ⟨reference, -⟩
    · exact name
    · exact absurd reference (Bool.eq_false_iff.mp noReference)

theorem agrees_passOver (room : runs.Room bound (limit + 1) (token :: rest)) (ahead : Ahead bound (token :: rest)) :
    runs.Agrees passOver passOver (token :: rest) fun _ after => runs.Room bound limit after :=
  .advance room.filled (.pure (room.tail ahead))

theorem agrees_expressionStatement (alike : runs.Alike inner inner') (room : runs.Room bound (limit + 1) before)
    (stops : HeadIn stopSigns bound) :
    runs.Agrees (expressionStatement runs.rounds inner) (expressionStatement runs.otherRounds inner') before
      fun _ after => runs.Room bound (limit + 1) after :=
  .andThen (agrees_expression alike 0 room stops) fun _ _ left => .pure left.room

theorem agrees_statementBefore (alike : runs.Alike inner inner') (third : Option Token)
    (room : runs.Room bound (limit + 1) (token :: rest)) (stops : HeadIn stopSigns bound)
    (name : token.kind = .name) (third_ : Ahead bound rest → third = rest[1]?) :
    runs.Agrees (statementBefore runs.rounds inner token rest.head? third)
      (statementBefore runs.otherRounds inner' token rest.head? third) (token :: rest)
      fun _ after => runs.Past (limit + 1) bound after := by
  have ahead := room.ahead_of_kind stops (by simp [name])
  have roomRest := room.tail ahead
  have past (after : List Token) (room : runs.Room bound limit after) : runs.Past (limit + 1) bound after :=
    .before (room.mono (Nat.le_succ _))
  have passed := (agrees_passOver room ahead).mono fun _ after room => past after room
  unfold statementBefore
  extract_lets word behindName behindName'
  refine .ite (fun space => ?_) fun _ => .ite (fun imports => ?_) fun _ => .ite (fun class_ => ?_) fun _ =>
    .ite (fun _ => passed) fun _ => .ite (fun _ => passed) fun _ => .ite (fun _ => passed) fun _ =>
    .ite (fun function => ?_) fun _ => .ite (fun _ => passed) fun _ => .ite (fun default => ?_) fun _ =>
    .ite (fun _ => passed) fun _ => (agrees_expressionStatement alike room stops).mono fun _ _ room => .before room
  · have atBlock (before : List Token) (room : runs.Room bound limit before) :
        runs.Agrees (behindName ()) (behindName' ()) before fun _ after => runs.Past (limit + 1) bound after :=
      (agrees_optionalBlock alike room stops (by decide)).mono fun _ after room => past after room
    refine .advance room.filled (.peek (roomRest.filled.imp_right List.length_pos_iff.mpr) (.ite (fun named => ?_)
      fun _ => atBlock rest roomRest))
    have isName : isKind rest.head? .name = true := by rwa [List.head?_eq_getElem?]
    exact .advance roomRest.filled (atBlock rest.tail (room_tail_of_isKind roomRest stops (by decide) isName))
  · have both : lowercase token.text = "use" ∧ isSign rest.head? "(" = false := by simpa [word] using imports
    exact .andThen (Runs.agrees_skipImports room stops ahead (Token.headEnds?_of_use name both.1 both.2))
      fun _ after passedOver => .pure (passedOver.mono (Nat.le_succ _))
  · obtain ⟨known, named⟩ := Bool.and_eq_true_iff.mp class_
    have ends := Token.headEnds?_of_class name (by simpa using known) named
    exact .andThen (agrees_classDeclaration alike room stops ahead ends named) fun body after room =>
      .pure (past after room)
  · have same : lowercase token.text = "function" := by simpa [word] using (Bool.and_eq_true_iff.mp function).1
    have ends : token.headEnds? rest.head? = some [openBrace, ";"] := Token.headEnds?_of_function name same
    refine (agrees_functionDeclaration alike room stops ahead ends ?_).mono fun _ after room => past after room
    refine (Bool.or_eq_true_iff.mp (Bool.and_eq_true_iff.mp function).2).imp_right fun both => ?_
    obtain ⟨reference, named⟩ := Bool.and_eq_true_iff.mp both
    cases rest with
    | nil => cases reference
    | cons second rest =>
      rw [third_ (roomRest.ahead_of_isSign stops reference (by decide))] at named
      exact ⟨reference, by simpa [List.head?_eq_getElem?] using named⟩
  · obtain ⟨-, colon⟩ := Bool.and_eq_true_iff.mp default
    cases rest with
    | nil => cases colon
    | cons second rest =>
      have aheadColon := roomRest.ahead_of_isSign stops colon (by decide)
      exact .advance room.filled ((agrees_passOver roomRest.exact_ aheadColon).mono fun _ after room =>
        past after (room.mono (Nat.le_of_lt roomRest.short)))

theorem agrees_namedStatement (alike : runs.Alike inner inner')
    (room : runs.Room bound (limit + 1) (token :: rest)) (stops : HeadIn stopSigns bound)
    (name : token.kind = .name) :
    runs.Agrees (namedStatement runs.rounds inner token) (namedStatement runs.otherRounds inner' token)
      (token :: rest) fun _ after => runs.Past (limit + 1) bound after := by
  have ahead := room.ahead_of_kind stops (by simp [name])
  have roomRest := room.tail ahead
  refine .peek (room.enough ahead) ?_
  rw [List.getElem?_cons_succ, ← List.head?_eq_getElem?]
  by_cases aheadRest : Ahead bound rest
  · have enough : runs.tail = [] ∨ 3 - 1 < (token :: rest).length :=
      (roomRest.enough aheadRest).imp_right Nat.succ_lt_succ
    exact .peek enough (agrees_statementBefore alike _ room stops name fun _ => List.getElem?_cons_succ)
  · -- behind the last token before the bound the third one may differ, but it does not matter
    have noFunction : isWordIn rest.head? ["function"] = false := by
      cases function : isWordIn rest.head? ["function"] with
      | false => rfl
      | true =>
        cases rest with
        | nil => cases function
        | cons second rest =>
          exact absurd (roomRest.ahead_of_kind stops (by simp [kind_of_isWordIn function])) aheadRest
    have noReference : isSign rest.head? "&" = false := by
      cases reference : isSign rest.head? "&" with
      | false => rfl
      | true =>
        cases rest with
        | nil => cases reference
        | cons second rest => exact absurd (roomRest.ahead_of_isSign stops reference (by decide)) aheadRest
    have same (rounds : Nat) (inner : Inner) (third : Option Token) :
        statementBefore rounds inner token rest.head? third = statementBefore rounds inner token rest.head? none := by
      simp [statementBefore, noFunction, noReference]
    refine .peek_any room.filled fun third third' => ?_
    have agrees := agrees_statementBefore alike none room stops name fun ahead => absurd ahead aheadRest
    rw [← same runs.rounds inner third, ← same runs.otherRounds inner' third'] at agrees
    exact agrees

theorem agrees_statement (alike : runs.Alike inner inner')
    (room : runs.Room bound (limit + 1) (token :: rest)) (stops : HeadIn stopSigns bound)
    (inside : isSign (some token) ";" = false → Ahead bound (token :: rest)) :
    runs.Agrees (statement runs.rounds inner) (statement runs.otherRounds inner')
      (token :: rest) fun _ after => runs.Past (limit + 1) bound after := by
  refine .peek (room.filled.imp_right List.length_pos_iff.mpr) ?_
  refine .ite (fun semicolon => .advance room.filled (.pure ((room.past semicolon).mono (Nat.le_succ _))))
    fun noSemicolon => ?_
  have ahead := inside (by simpa using noSemicolon)
  refine .ite (fun _ => (agrees_optionalBlock alike room stops (by decide)).mono fun _ _ room => .before room) fun _ =>
    .ite (fun closes => ?_) fun _ => .ite (fun opens => ?_) fun _ => .ite (fun name => ?_) fun _ => ?_
  · exact .skip room.filled (.pure (.before ((room.tail ahead).mono (Nat.le_succ _))))
  · exact .andThen (Runs.agrees_skipAttribute room stops opens) fun _ after passedOver =>
      .pure (.before (passedOver.1.mono (Nat.le_succ _)))
  · exact agrees_namedStatement alike room stops (by simpa using name)
  · exact (agrees_expressionStatement alike room stops).mono fun _ _ room => .before room

/-- A round at a statement takes a token, since what no statement takes is skipped. -/
theorem agrees_statementStep (alike : runs.Alike inner inner') {close : Option String} (nodes : List Node)
    (room : runs.Room bound (limit + 1) (token :: rest)) (stops : HeadIn stopSigns bound)
    (inside : isSign (some token) ";" = false → Ahead bound (token :: rest))
    (other : close.any (isSign (some token)) = false) :
    runs.Agrees (statementStep runs.rounds inner close nodes) (statementStep runs.otherRounds inner' close nodes)
      (token :: rest) fun result after => result.2 = true ∧ runs.Past limit bound after := by
  have skipped : runs.Past limit bound rest := by
    cases semicolon : isSign (some token) ";" with
    | true => exact room.past semicolon
    | false => exact .before (room.tail (inside semicolon))
  have short : rest.length < limit := Nat.lt_of_succ_lt_succ room.short
  refine .peek_settled (room.filled.imp_right List.length_pos_iff.mpr) fun cursor fits atStart settled => ?_
  simp only [Nat.sub_self, List.getElem?_cons_zero, Option.isNone_some, Bool.false_eq_true, if_false, other]
  refine Runs.Agrees.moved (agrees_statement alike room stops inside) ?_ ?_ fits atStart settled
  · exact fun found _ => .skip room.filled (.pure ⟨rfl, skipped⟩)
  · exact fun found after past shorter => .pure ⟨rfl, past.shorten (Nat.lt_of_le_of_lt shorter short)⟩

theorem statements_closes (alike : runs.Alike inner inner') :
    runs.Closes closeBrace (statements runs.rounds inner (some closeBrace))
      (statements runs.otherRounds inner' (some closeBrace)) := by
  intro bound inside limit before within room
  rw [statements_eq, statements_eq]
  have round (nodes : List Node) (before : List Token) (room : runs.Room inside limit before) :
      runs.Agrees (statementStep runs.rounds inner (some closeBrace) nodes)
        (statementStep runs.otherRounds inner' (some closeBrace) nodes) before fun result after =>
          if result.2 then runs.Room inside limit after ∧ after.length < before.length
          else runs.Room bound limit after := by
    cases before with
    | nil => exact .peek (room.filled.imp_right List.length_pos_iff.mpr) (.pure (room.leave within (by decide)))
    | cons token rest =>
      cases closes : isSign (some token) closeBrace with
      | true =>
        exact .peek (room.filled.imp_right List.length_pos_iff.mpr) (.ite (fun no => nomatch no) fun _ =>
          .ite (fun _ => .advance room.filled (.pure (room.pass within (by decide)))) fun no => absurd closes no)
      | false =>
        have ahead : Ahead inside (token :: rest) := room.ahead within.headIn (by simpa [Token.isSignIn] using closes)
        have other : (some closeBrace).any (isSign (some token)) = false := closes
        refine (agrees_statementStep alike nodes room.exact_ (within.stops (by decide)) (fun _ => ahead) other).mono ?_
        rintro ⟨nodes, more⟩ after ⟨rfl, past⟩
        have roomAfter := past.room within.headIn (by decide)
        exact ⟨roomAfter.mono (Nat.le_of_lt room.short), roomAfter.short⟩
  exact .map (.repeatStep round room)

end Parse

/-- Parsers of every depth agree. -/
theorem Runs.alike_ofDepth (runs : Runs) (depth : Nat) :
    runs.Alike (Inner.ofDepth runs.rounds depth) (Inner.ofDepth runs.otherRounds depth) := by
  induction depth with
  | zero =>
    exact ⟨fun {_ _ _ _} _ room => .tooDeep room.filled, fun _ {_ _ _} room _ => .tooDeep room.filled,
      fun {_ _ _} room _ => .tooDeep room.filled, fun {_ _ _} room _ => .tooDeep room.filled⟩
  | succ depth ih =>
    exact ⟨Parse.statements_closes ih, Parse.agrees_expression ih, Parse.agrees_unary ih, Parse.agrees_primary ih⟩

end FormHarvest
