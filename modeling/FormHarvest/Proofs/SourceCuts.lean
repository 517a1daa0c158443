import FormHarvest.Proofs.AgreeingStatements

namespace FormHarvest

open FormHarvest.Bound Parse

theorem significantTokens_append (first second : List Token) :
    significantTokens (first ++ second) = significantTokens first ++ significantTokens second :=
  List.filterMap_append

/-- What is closed up to a token that closes nothing is closed before it. -/
theorem Shut.of_concat {front : List Token} {last : Token} (shut : Shut (front ++ [last]))
    (noCloser : last.closes = false) : Shut front := by
  generalize whole : front ++ [last] = tokens at shut
  induction shut generalizing front with
  | nil => simp at whole
  | @plain token rest noOpener shut ih =>
    cases front with
    | nil => exact .nil
    | cons first front =>
      obtain ⟨rfl, same⟩ := List.cons.inj whole
      exact .plain noOpener (ih same)
  | @group opener closer close inside rest opens closed level shut ih =>
    rcases List.eq_nil_or_concat rest with rfl | ⟨others, token, rfl⟩
    · have same : last = closer := List.singleton_inj.mp
        (List.append_inj' (show front ++ [last] = (opener :: inside) ++ [closer] from whole) rfl).2
      have isCloser := Token.isSignIn_of_isSign closed (Token.mem_closers_of_closing? opens)
      rw [← same, ← Token.closes, noCloser] at isCloser
      cases isCloser
    · rw [List.concat_eq_append] at whole ih
      have parts : front ++ [last] = opener :: (inside ++ closer :: others) ++ [token] := by simpa using whole
      obtain ⟨rfl, same⟩ := List.append_inj' parts rfl
      obtain rfl := List.singleton_inj.mp same
      exact .group opens closed level (ih rfl)

/-! ### The loop over a source -/

/-- The loop over the statements of a source, with at most `depth` levels of nesting in each. -/
def sourceLoop (depth rounds more : Nat) (nodes : List Node) : Parse (List Node) :=
  repeatStep (statementStep rounds (Inner.ofDepth rounds depth) none) more nodes

theorem parseTokens_eq (tokens : List Token) (depth : Nat) :
    parseTokens tokens (depth + 1) =
      match sourceLoop depth ((significantTokens tokens).length + 1) ((significantTokens tokens).length + 1) []
        { rest := significantTokens tokens } with
      | .error fault => .error fault
      | .ok (found, cursor) => .ok (found.reverse, cursor.skipped) := by
  have nested (rounds : Nat) (cursor : Cursor) :
      (Inner.ofDepth rounds (depth + 1)).statements none cursor =
        (List.reverse <$> sourceLoop depth rounds rounds []) cursor := by
    rw [sourceLoop, ← statements_eq]
    rfl
  simp only [parseTokens, nested]
  simp only [Functor.map, StateT.map, Bind.bind, Except.bind]
  cases sourceLoop depth ((significantTokens tokens).length + 1) ((significantTokens tokens).length + 1) []
      { rest := significantTokens tokens } with
  | error fault => rfl
  | ok result => rfl

/-- A round puts what it finds before what was found. -/
theorem statementStep_append (rounds : Nat) (inner : Inner) (close : Option String) (found nodes : List Node) :
    statementStep rounds inner close (found ++ nodes) =
      (fun result => (result.1 ++ nodes, result.2)) <$> statementStep rounds inner close found := by
  simp [statementStep, apply_ite ((fun result : List Node × Bool => (result.1 ++ nodes, result.2)) <$> ·)]

theorem sourceLoop_append (depth rounds more : Nat) (found nodes : List Node) :
    sourceLoop depth rounds more (found ++ nodes) = (· ++ nodes) <$> sourceLoop depth rounds more found := by
  unfold sourceLoop
  induction more generalizing found with
  | zero => simp [repeatStep]
  | succ more ih =>
    simp only [repeatStep, statementStep_append, bind_map_left, map_bind]
    refine congrArg _ (funext fun result => ?_)
    obtain ⟨found, again⟩ := result
    cases again
    · simp
    · simpa using ih found

theorem sourceLoop_nil {cursor : Cursor} (depth rounds most : Nat) (nodes : List Node) (nothing : cursor.rest = []) :
    sourceLoop depth most (rounds + 1) nodes cursor = .ok (nodes, cursor) := by
  obtain ⟨rest, doc, position, skipped⟩ := cursor
  obtain rfl : rest = [] := nothing
  rfl

section Loops

variable (depth : Nat) {runs : Runs} {limit : Nat} {before : List Token} {last : Token}

/-- A loop over the statements of some tokens, and the same loop with more tokens behind them: both fail
alike, or the second one goes on behind them with what the first one has found. -/
theorem exists_sourceLoop_behind (semicolon : isSign (some last) ";" = true)
    (longer : runs.tail ≠ []) (past : runs.Past limit (some [last]) before) {cursor : Cursor}
    (fits : runs.Fits cursor) (atStart : cursor.ahead = before) {rounds more : Nat} (nodes : List Node)
    (enough : before.length < rounds) (enoughMore : before.length + runs.tail.length < more) :
    (∃ fault, sourceLoop depth runs.rounds rounds nodes cursor = .error fault ∧
        sourceLoop depth runs.otherRounds more nodes (runs.other cursor) = .error fault) ∨
      ∃ found after left, sourceLoop depth runs.rounds rounds nodes cursor = .ok (found, after) ∧
        after.rest = [] ∧ after.pendingDoc = none ∧ runs.tail.length < left ∧
        sourceLoop depth runs.otherRounds more nodes (runs.other cursor) =
          sourceLoop depth runs.otherRounds left found (runs.other after) := by
  induction rounds generalizing before cursor nodes more limit with
  | zero => cases enough
  | succ rounds ih =>
    obtain ⟨more, rfl⟩ : ∃ fewer, more = fewer + 1 := ⟨more - 1, by omega⟩
    obtain ⟨noDoc, read⟩ := fits.bare.resolve_left longer
    cases before with
    | nil =>
      have nothing : cursor.rest = [] := by
        rwa [Cursor.ahead, List.filter_eq_self.mpr read] at atStart
      exact .inr ⟨nodes, cursor, more + 1, sourceLoop_nil depth rounds _ nodes nothing, nothing, noDoc, by omega, rfl⟩
    | cons token rest =>
      have room : runs.Room (some [last]) limit (token :: rest) := by
        cases past with
        | before room => exact room
      have head : HeadIn [";"] (some [last]) := by
        rintro _ ⟨⟩
        exact Token.isSignIn_of_isSign semicolon (List.mem_singleton_self _)
      have round := agrees_statementStep (runs.alike_ofDepth depth) nodes room.exact_
        (head.mono (by decide)) (fun noSemicolon => room.ahead head (by simpa [Token.isSignIn] using noSemicolon))
        (Option.any_none : (none : Option String).any (isSign (some token)) = false) cursor fits atStart
      cases run : statementStep runs.rounds (Inner.ofDepth runs.rounds depth) none nodes cursor with
      | error fault =>
        rw [run] at round
        exact .inl ⟨fault, repeatStep_of_error rounds run, repeatStep_of_error more round⟩
      | ok result =>
        obtain ⟨⟨found, again⟩, after⟩ := result
        rw [run] at round
        obtain ⟨other, fitsAfter, -, rfl, pastAfter⟩ := round
        have shorter : after.ahead.length < (token :: rest).length := pastAfter.short
        rw [sourceLoop, sourceLoop, repeatStep_of_ok rounds run, repeatStep_of_ok more other]
        exact ih pastAfter fitsAfter rfl found (by omega) (by omega)

/-- Wherever a loop stands in a source and however many rounds it has, it reads the tokens ahead alike. -/
theorem agrees_sourceLoop (alone : runs.tail = []) {rounds more : Nat} (nodes : List Node)
    (enough : before.length < rounds) (enoughMore : before.length < more) :
    runs.Agrees (sourceLoop depth runs.rounds rounds nodes) (sourceLoop depth runs.otherRounds more nodes) before
      fun _ _ => True := by
  let inner (rounds : Nat) : Inner := Inner.ofDepth rounds depth
  have round (nodes : List Node) (before : List Token) (_ : True) :
      runs.Agrees (statementStep runs.rounds (inner runs.rounds) none nodes)
        (statementStep runs.otherRounds (inner runs.otherRounds) none nodes) before
        fun result after => if result.2 then True ∧ after.length < before.length else True := by
    cases before with
    | nil => exact .peek (.inl alone) (.pure trivial)
    | cons token rest =>
      have room : runs.Room none ((token :: rest).length + 1) (token :: rest) :=
        ⟨Nat.lt_succ_self _, fun _ => alone, nofun⟩
      refine (agrees_statementStep (runs.alike_ofDepth depth) nodes room (nofun : HeadIn stopSigns none)
        (fun _ => nofun) rfl).mono ?_
      rintro ⟨nodes, more⟩ after ⟨rfl, past⟩
      exact ⟨trivial, past.short⟩
  exact .repeatRounds round trivial enough enoughMore

end Loops

/-- The loop over some tokens that end with a statement and over others behind them. -/
theorem sourceLoop_tokens_append {first second : List Token} (longer : second ≠ [])
    (read : ∀ token ∈ first, token.isRead = true) (level : Level first)
    (ends : isSign first.getLast? ";" = true) (complete : Complete first) (depth : Nat) {rounds : Nat}
    (enough : first.length + second.length < rounds) :
    sourceLoop depth rounds rounds [] { rest := first ++ second } = do
      let (found, cursor) ← sourceLoop depth (first.length + 1) (first.length + 1) [] { rest := first }
      let (others, after) ← sourceLoop depth (second.length + 1) (second.length + 1) [] { rest := second }
      return (others ++ found,
        { after with position := after.position + cursor.position, skipped := after.skipped + cursor.skipped }) := by
  obtain ⟨front, last, rfl, semicolon⟩ : ∃ front last, first = front ++ [last] ∧ isSign (some last) ";" = true := by
    cases end_ : first.getLast? with
    | none => rw [end_] at ends; cases ends
    | some last =>
      obtain ⟨front, rfl⟩ := List.getLast?_eq_some_iff.mp end_
      exact ⟨front, last, rfl, end_ ▸ ends⟩
  generalize whole : front ++ [last] = first at *
  let runs : Runs := ⟨first, second, first.length + 1, rounds, 0, 0⟩
  have room : runs.Room (some [last]) (first.length + 1) first := by
    refine ⟨Nat.lt_succ_self _, nofun, ?_⟩
    rintro _ ⟨⟩
    have shut : Shut front := Shut.of_concat (whole ▸ level.shut) (Token.isSignIn_eq_false semicolon (by decide))
    exact ⟨List.cons_ne_nil _ _, List.suffix_refl _, complete, front, whole.symm, shut⟩
  have fits : runs.Fits { rest := first } := ⟨Nat.lt_succ_self _, by show first.length < rounds; omega, .inr ⟨rfl, read⟩⟩
  have ahead : Cursor.ahead { rest := first } = first := List.filter_eq_self.mpr read
  have both := exists_sourceLoop_behind depth semicolon longer (.before room) fits ahead [] (Nat.lt_succ_self _) enough
  rw [show runs.other { rest := first } = { rest := first ++ second } from rfl] at both
  rcases both with ⟨fault, run, both⟩ | ⟨found, cursor, left, run, atEnd, noDoc, long, both⟩
  · rw [both, run]
    rfl
  let further : Runs := ⟨[], [], second.length + 1, rounds, cursor.position, cursor.skipped⟩
  have behind : runs.other cursor = further.other { rest := second } := by
    simp [Runs.other, runs, further, atEnd, noDoc]
  have fits : further.Fits { rest := second } :=
    ⟨Nat.lt_succ_self _, by show second.length < rounds; omega, .inl rfl⟩
  have shorter : (Cursor.ahead { rest := second }).length ≤ second.length := List.length_filter_le _ _
  have agrees : further.SameEnd _ _ (sourceLoop depth (second.length + 1) (second.length + 1) [] { rest := second })
      (sourceLoop depth rounds left [] (further.other { rest := second })) :=
    agrees_sourceLoop depth rfl [] (Nat.lt_succ_of_le shorter) (Nat.lt_of_le_of_lt shorter long) _ fits rfl
  rw [both, run, behind, ← List.nil_append found, sourceLoop_append]
  simp only [Functor.map, StateT.map, Bind.bind, Except.bind, Pure.pure, Except.pure]
  cases other : sourceLoop depth (second.length + 1) (second.length + 1) [] { rest := second } with
  | error fault =>
    rw [other] at agrees
    rw [show sourceLoop depth rounds left [] (further.other { rest := second }) = .error fault from agrees]
  | ok result =>
    obtain ⟨others, after⟩ := result
    rw [other] at agrees
    rw [agrees.1]
    simp [Runs.other, further]

/-- Where no level of nesting is read, parsing fails at the first token. -/
theorem parseTokens_zero_eq (tokens : List Token) {token : Token} {rest : List Token}
    (starts : significantTokens tokens = token :: rest) (isRead : token.isRead = true) :
    parseTokens tokens 0 = .error ⟨token.line⟩ := by
  have noDoc : (token.kind == .docComment) = false := by simpa [Token.isRead] using isRead
  simp [parseTokens, starts, Inner.ofDepth, tooDeep, Cursor.settle, Cursor.settleFrom, Cursor.ahead?, noDoc]

/-- The trees of some tokens that end with a statement, and of others behind them, are the trees of both:
nothing that is opened in the first ones runs on into the others. -/
theorem parseTokens_append {first : List Token} (second : List Token)
    (noDocs : ∀ token ∈ first, token.kind ≠ .docComment) (level : Level (significantTokens first))
    (ends : isSign (significantTokens first).getLast? ";" = true)
    (complete : Complete (significantTokens first)) (limit : Nat) :
    parseTokens (first ++ second) limit = do
      let (nodes, skipped) ← parseTokens first limit
      let (others, more) ← parseTokens second limit
      return (nodes ++ others, skipped + more) := by
  have read (token : Token) (member : token ∈ significantTokens first) : token.isRead = true := by
    obtain ⟨written, isWritten, same⟩ := List.mem_filterMap.mp member
    have noDoc := noDocs written isWritten
    split at same
    · cases same
    · cases same
    · cases same
      rfl
    · cases same
      simpa [Token.isRead] using noDoc
  cases limit with
  | zero =>
    obtain ⟨token, rest, starts⟩ : ∃ token rest, significantTokens first = token :: rest :=
      List.exists_cons_of_ne_nil fun nothing => by simp [nothing, isSign] at ends
    have isRead := read token (starts ▸ List.mem_cons_self)
    have both : significantTokens (first ++ second) = token :: (rest ++ significantTokens second) := by
      rw [significantTokens_append, starts, List.cons_append]
    rw [parseTokens_zero_eq _ both isRead, parseTokens_zero_eq _ starts isRead]
    rfl
  | succ depth =>
    by_cases longer : significantTokens second = []
    · have alone : parseTokens second (depth + 1) = .ok ([], 0) := by
        rw [parseTokens_eq, longer]
        rfl
      have same : parseTokens (first ++ second) (depth + 1) = parseTokens first (depth + 1) := by
        rw [parseTokens_eq, parseTokens_eq, significantTokens_append, longer, List.append_nil]
      rw [alone, same]
      cases parseTokens first (depth + 1) with
      | error fault => rfl
      | ok result => simp [Bind.bind, Except.bind, Pure.pure, Except.pure]
    rw [parseTokens_eq, parseTokens_eq, parseTokens_eq, significantTokens_append,
      sourceLoop_tokens_append longer read level ends complete depth (by simp)]
    cases sourceLoop depth ((significantTokens first).length + 1) ((significantTokens first).length + 1) []
        { rest := significantTokens first } with
    | error fault => rfl
    | ok result =>
      simp only [Bind.bind, Except.bind, Pure.pure, Except.pure]
      cases sourceLoop depth ((significantTokens second).length + 1) ((significantTokens second).length + 1) []
          { rest := significantTokens second } with
      | error fault => rfl
      | ok other => simp [Nat.add_comm]

/-- An array with a spread, as `$a = [...$b];`. -/
def spreadArray : List Token := [
  ⟨.variable, "a", "$a", 1, false⟩, ⟨.operator, "=", "=", 1, false⟩, ⟨.punctuation, "[", "[", 1, false⟩,
  ⟨.operator, "...", "...", 1, false⟩, ⟨.variable, "b", "$b", 1, false⟩, ⟨.punctuation, "]", "]", 1, false⟩,
  ⟨.punctuation, ";", ";", 1, false⟩]

/-- An array with a spread of nothing, as `$a = [...];`. -/
def bareSpread : List Token := [
  ⟨.variable, "a", "$a", 1, false⟩, ⟨.operator, "=", "=", 1, false⟩, ⟨.punctuation, "[", "[", 1, false⟩,
  ⟨.operator, "...", "...", 1, false⟩, ⟨.punctuation, "]", "]", 1, false⟩, ⟨.punctuation, ";", ";", 1, false⟩]

/-- A variable as a statement, as `$c;`. -/
def otherStatement : List Token := [⟨.variable, "c", "$c", 1, false⟩, ⟨.punctuation, ";", ";", 1, false⟩]

theorem parseTokens_spreadArray_append :
    (∀ token ∈ spreadArray, token.kind ≠ .docComment) ∧ Level (significantTokens spreadArray) ∧
      isSign (significantTokens spreadArray).getLast? ";" = true ∧ Complete (significantTokens spreadArray) ∧
      parseTokens (spreadArray ++ otherStatement) = do
        let (nodes, skipped) ← parseTokens spreadArray
        let (others, more) ← parseTokens otherStatement
        return (nodes ++ others, skipped + more) := by
  have noDocs : ∀ token ∈ spreadArray, token.kind ≠ .docComment := by decide
  have level : Level (significantTokens spreadArray) := level_of_nests (by decide)
  have ends : isSign (significantTokens spreadArray).getLast? ";" = true := by decide
  have complete : Complete (significantTokens spreadArray) := by decide
  exact ⟨noDocs, level, ends, complete, parseTokens_append otherStatement noDocs level ends complete maxNesting⟩

/-- The bracket behind a spread of nothing is skipped, and the array runs on into the statement behind it. -/
theorem parseTokens_bareSpread_append :
    (∀ token ∈ bareSpread, token.kind ≠ .docComment) ∧ Level (significantTokens bareSpread) ∧
      isSign (significantTokens bareSpread).getLast? ";" = true ∧
      parseTokens (bareSpread ++ otherStatement) ≠ do
        let (nodes, skipped) ← parseTokens bareSpread
        let (others, more) ← parseTokens otherStatement
        return (nodes ++ others, skipped + more) := by
  refine ⟨by decide, level_of_nests (by decide), by decide, fun same => ?_⟩
  have count := congrArg (fun parsed => parsed.toOption.map fun result => result.1.length) same
  revert count
  decide +kernel

end FormHarvest
